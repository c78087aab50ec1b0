import SweetClib.Bns.Weapon

/-!
# The exported weapons are JSON

A row prints an opening brace and the first members in column 1, members in the columns up to 266,
and in column 267 the last member and the closing brace (`Printed`). Every column prints members
with a comma behind each (`weaponSwitch_members`), except column 28 for the two codes of two
professions (`TwoProfessions`), whose second name has no key (`two_professions`): such a row is not
JSON, whatever its other columns are.
-/

namespace SweetClib.Bns
open SweetClib.Lib SweetClib.Linked SweetClib.Hash

/-- The rows the exporter is meant for: the id is in the range, the columns are there, those that
are printed without quotes are numbers, and what is printed in quotes can stand there. A line with
a place has a name, and the icon is in the table. -/
structure Exportable (env : WeaponEnv) (icons : Set SweetListKv) (line : Line) : Prop where
  inRange : ∃ id, atoi (column 0 line) = some id ∧ env.first ≤ id ∧ id ≤ env.last
  enough : 268 ≤ (columns line.chars).length
  numbers : ∀ n ∈ 1 :: 175 :: numberColumns.map Prod.fst, isNumber (column n line) = true
  plain : ∀ n ∈ [14, 34, 229], Plain (column n line)
  icon : ∃ e ∈ icons, env.regexIcon.captured (column 232 line) = some e.key
  description : ∀ s, env.regexPatten.captured (column 260 line) = some s → Plain s
  location : ∀ t ∈ tokens lineBreak (column 266 line), ∀ k, env.regexLocK.captured t = some k →
    Plain k ∧ ∃ v, env.regexLocV.captured t = some v ∧ Plain (v.filter (· ≠ 34))
  effect : ∀ t ∈ tokens effectBreak (column 267 line), ∀ s, env.regexPatten.captured t = some s →
    Plain s

/-- What the code needs besides: texts that fit its buffers, numbers in the range of `int`, an icon
that can stand in quotes, and something to print for the null pointer where an effect does not
match and the column does. -/
structure WeaponFits (env : WeaponEnv) (icons : Set SweetListKv) (line : Line) : Prop where
  fits : ∀ f ∈ columns line.chars, f.length < TITLE_BUF + 1
  level : ∃ level, atoi (column 1 line) = some level
  attack : ∃ low high, atoi (column 81 line) = some low ∧ atoi (column 82 line) = some high ∧
    IsInt (low + high)
  icon : env.regexIcon.Fits (column 232 line)
  iconPlain : ∀ e ∈ icons, env.regexIcon.captured (column 232 line) = some e.key → Plain e.value
  description : env.regexPatten.Fits (column 260 line)
  location : ∀ t ∈ tokens lineBreak (column 266 line), t.length < RES_SIZE
  effects : env.regexPatten.Fits (column 267 line)
  effect : ∀ t ∈ tokens effectBreak (column 267 line), t.length < RES_SIZE
  null : env.regexPatten.captured (column 267 line) ≠ none →
    ∀ t ∈ tokens effectBreak (column 267 line), env.regexPatten.captured t = none →
      ∃ s, env.nullText = some s ∧ Plain s

section Members

variable {env : WeaponEnv} {icons : Set SweetListKv} {line : Line}

/-- A chain of `strcmp` picks one of its cases. -/
lemma strcmpChain_mem {cases : List (String × String)} {title : List UInt8} {t : String}
    (h : strcmpChain cases title = some t) :
    ∃ code, (code, t) ∈ cases ∧ title = text code := by
  obtain ⟨⟨code, t'⟩, found, rfl⟩ := Option.map_eq_some_iff.mp h
  refine ⟨code, List.mem_of_find?_eq_some found, ?_⟩
  simpa using List.find?_some found

/-- What is printed for a type of weapon can stand in quotes. -/
lemma weaponTypes_plain : ∀ e ∈ weaponTypes, Plain (text e.2) := by decide

/-- The codes of two professions. -/
def TwoProfessions (title : List UInt8) : Prop := title = text "1,8" ∨ title = text "7,9"

/-- What is printed for a profession is a string, but for the codes of two professions. -/
lemma professions_quoted : ∀ e ∈ professions, e.1 = "1,8" ∨ e.1 = "7,9" ∨
    text e.2 = quoted (text e.2).tail.dropLast ∧ Plain (text e.2).tail.dropLast := by decide

/-- The columns that are numbers have keys that can stand in quotes. -/
lemma numberColumns_plain : ∀ e ∈ numberColumns, Plain (text e.2) := by decide

lemma fixedMembers_text : MemberText fixedMembers := by
  have zero : ∀ key, Plain (text key) → MemberText (numMember key (text "0")) :=
    fun key plain => memberText_num key plain (by decide)
  have durable : MemberText (strMember "耐久度" (text "100/100")) :=
    memberText_str _ (by decide) (by decide)
  have growth : MemberText (strMember "growth_level_exp" (text "0")) :=
    memberText_str _ (by decide) (by decide)
  have start := memberText_append (memberText_append durable (zero "disable" (by decide))) growth
  have more := memberText_append (memberText_append start (zero "growth_recipe_cost" (by decide)))
    (zero "mesh_id" (by decide))
  exact memberText_append
    (memberText_append (memberText_append more (zero "hidden" (by decide))) (zero "集中" (by decide)))
    (zero "额外伤害" (by decide))

/-- Letters in lower case can stand in quotes. -/
lemma plain_tolower {s : List UInt8} (plain : Plain s) : Plain (s.map tolower) := by
  intro c mem
  obtain ⟨c, found, rfl⟩ := List.mem_map.mp mem
  rw [tolower]
  split
  · rename_i letter
    obtain ⟨low, high⟩ := letter
    simp only [UInt8.le_iff_toNat_le, ne_eq, ← UInt8.toNat_inj, UInt8.toNat_add,
      UInt8.reduceToNat] at low high ⊢
    omega
  · exact plain c found

/-- The name of a place and its text, in case 266. -/
def locationText (env : WeaponEnv) (t : List UInt8) : Option (List UInt8) :=
  (env.regexLocK.captured t).map fun k =>
    arrayText [quoted (k.map tolower),
      quoted (((env.regexLocV.captured t).getD []).filter (· ≠ 34))]

/-- Case 266 prints the list of the places. -/
lemma weaponLocations_eq (row : Exportable env icons line) (fit : WeaponFits env icons line)
    (out : List UInt8) :
    weaponLocations env (column 266 line) out =
      some (out ++ (quoted (text "location") ++ [58] ++
        arrayText ((tokens lineBreak (column 266 line)).filterMap (locationText env)) ++
          [44])) := by
  have plain := column_plain 266 line
  have each : ∀ t ∈ tokens lineBreak (column 266 line), ∀ l,
      weaponLocation env t l = some ((locationText env t).elim l l.add) := by
    intro t mem l
    have short := fit.location t mem
    have part : ∀ reg : Regex, ∀ s, reg.captured t = some s → 0 ∉ s ∧ s.length < RES_SIZE := by
      intro reg s h
      have sub := reg.captured_sublist h
      refine ⟨fun zero => ?_, Nat.lt_of_le_of_lt sub.length_le short⟩
      exact plain ((sub.trans (sublist_of_tokens mem)).subset zero)
    rw [weaponLocation, filterRegex_eq (Regex.fits_of_length short),
      filterRegex_eq (Regex.fits_of_length short), locationText]
    cases hk : env.regexLocK.captured t with
    | none => rfl
    | some k =>
      obtain ⟨_, v, hv, _⟩ := row.location t mem k hk
      obtain ⟨zero, fits⟩ := part _ k hk
      obtain ⟨zero', fits'⟩ := part _ v hv
      have del : strDelchar v (text "\"") = some (v.filter (· ≠ 34)) :=
        strDelchar_eq zero' fits' 34 []
      simp only [hv, Option.bind_eq_bind, Option.bind_some, strTolower_eq zero fits, del]
      rfl
  rw [weaponLocations, strntokEach_tokens (by decide) plain fit.location,
    foldlM_listing _ (locationText env) each]
  have start : text "\"location\":[" = quoted (text "location") ++ [58] ++ [91] := by decide
  have stop : text "]," = [93] ++ [44] := by decide
  simp [listing, arrayText, start, stop]

lemma locations_value (row : Exportable env icons line) :
    ValueText (arrayText ((tokens lineBreak (column 266 line)).filterMap (locationText env))) := by
  apply valueText_array
  intro x mem
  obtain ⟨t, found, e⟩ := List.mem_filterMap.mp mem
  obtain ⟨k, hk, rfl⟩ := Option.map_eq_some_iff.mp e
  obtain ⟨plain, v, hv, plain'⟩ := row.location t found k hk
  rw [hv]
  apply valueText_array
  simp only [List.forall_mem_cons, List.not_mem_nil, false_implies, implies_true, and_true]
  exact ⟨valueText_quoted (plain_tolower plain), valueText_quoted plain'⟩

/-- Case 232 prints the icon from the table. -/
lemma icon_member {signed : Bool} (holds : Table signed env.htbl icons)
    (row : Exportable env icons line) (fit : WeaponFits env icons line) (st : WeaponSt) :
    ∃ p, MemberText p ∧ weaponSwitch env 232 (column 232 line) st = st.print p := by
  obtain ⟨e, mem, captured⟩ := row.icon
  obtain ⟨e', mem', same, found⟩ := holds.find_hit mem { key := e.key, value := env.fresh } rfl
  have plain : Plain e'.value := fit.iconPlain e' mem' (by rw [captured, same])
  refine ⟨strMember "icon" e'.value, memberText_str _ (by decide) plain, ?_⟩
  have look : numberColumns.lookup 232 = none := by decide
  unfold weaponSwitch
  simp only [look, filterRegex_eq fit.icon, captured, Option.bind_eq_bind, Option.bind_some, found]

/-- Column 28 prints a member, but for the codes of two professions. -/
lemma profession_member {title : List UInt8} (single : ¬ TwoProfessions title) (env : WeaponEnv)
    (st : WeaponSt) :
    ∃ p, MemberText p ∧ weaponSwitch env 28 title st = st.print p := by
  have look : numberColumns.lookup 28 = none := by decide
  unfold weaponSwitch
  simp only [look]
  cases h : strcmpChain professions title with
  | none => exact ⟨[], memberText_nil, by simp [WeaponSt.print]⟩
  | some p =>
    obtain ⟨code, mem, rfl⟩ := strcmpChain_mem h
    rcases professions_quoted _ mem with e | e | ⟨e, plain⟩
    · exact absurd (.inl (congrArg text e)) single
    · exact absurd (.inr (congrArg text e)) single
    · simp only at e
      refine ⟨_, memberText_value _ (by decide) ?_, rfl⟩
      rw [e]
      exact valueText_quoted plain

/-- What is printed for these codes: two names. -/
lemma professions_two {title : List UInt8} (two : TwoProfessions title) :
    ∃ p first second, strcmpChain professions title = some p ∧
      text p = quoted first ++ 44 :: quoted second ∧ Plain first ∧ Plain second := by
  rcases two with rfl | rfl
  · exact ⟨_, text "剑师", text "灵剑士", rfl, by decide, by decide, by decide⟩
  · exact ⟨_, text "刺客", text "咒术师", rfl, by decide, by decide, by decide⟩

/-- For these codes column 28 prints a member, and behind it a name without a key. -/
lemma two_professions {title : List UInt8} (two : TwoProfessions title) (env : WeaponEnv)
    (st : WeaponSt) :
    ∃ p s, MemberText p ∧ Plain s ∧
      weaponSwitch env 28 title st = st.print (p ++ (quoted s ++ [44])) := by
  obtain ⟨p, first, second, found, e, plain, plain'⟩ := professions_two two
  refine ⟨strMember "职业" first, second, memberText_str _ (by decide) plain, plain', ?_⟩
  have look : numberColumns.lookup 28 = none := by decide
  unfold weaponSwitch
  simp only [look, found, e, strMember]
  simp

/-- Every column up to 266 prints members, but for column 28 with two professions. -/
lemma weaponSwitch_members {signed : Bool} (holds : Table signed env.htbl icons)
    (row : Exportable env icons line) (fit : WeaponFits env icons line) (st : WeaponSt) {n : Nat}
    (lo : 2 ≤ n) (hi : n ≤ 266) (single : n = 28 → ¬ TwoProfessions (column 28 line))
    (attack : n = 82 → st.atkMin = some (column 81 line)) :
    ∃ p atkMin, MemberText p ∧
      weaponSwitch env n (column n line) st = some { st with out := st.out ++ p, atkMin } ∧
      (n = 81 → atkMin = some (column 81 line)) := by
  have print : ∀ {m p r}, MemberText p → r = st.print p → m ≠ 81 → ∃ p atkMin, MemberText p ∧
      r = some { st with out := st.out ++ p, atkMin } ∧
          (m = 81 → atkMin = some (column 81 line)) := by
    intro m p r member e ne
    exact ⟨p, st.atkMin, member, e, fun eq => absurd eq ne⟩
  have nothing : ∀ {m}, m ≠ 81 → ∃ p atkMin, MemberText p ∧
      some st = some { st with out := st.out ++ p, atkMin } ∧
          (m = 81 → atkMin = some (column 81 line)) := by
    intro m ne
    exact print memberText_nil (by simp [WeaponSt.print]) ne
  unfold weaponSwitch
  cases look : numberColumns.lookup n with
  | some key =>
    obtain ⟨l₁, l₂, split, _⟩ := List.lookup_eq_some_iff.mp look
    have mem : (n, key) ∈ numberColumns := by
      rw [split]
      simp
    have num :=
      row.numbers n
      (by simp only [List.mem_cons]; exact .inr (.inr (List.mem_map.mpr ⟨_, mem, rfl⟩)))
    refine print (memberText_num key (numberColumns_plain _ mem) num) rfl ?_
    rintro rfl
    cases look
  | none =>
    simp only
    split
    · omega
    · omega
    · split
      · rename_i t h
        obtain ⟨code, mem, _⟩ := strcmpChain_mem h
        exact print (memberText_str _ (by decide) (weaponTypes_plain _ mem)) rfl (by decide)
      · exact nothing (by decide)
    · refine print (memberText_append (memberText_str _ (by decide) (row.plain 14 (by decide))) ?_)
        rfl (by decide)
      split
      · exact memberText_str _ (by decide) (by decide)
      · exact memberText_nil
    · obtain ⟨p, member, e⟩ := profession_member (single rfl) env st
      exact print member e (by decide)
    · refine print (memberText_str _ (by decide) ?_) rfl (by decide)
      split
      · decide
      · exact row.plain 34 (by decide)
    · exact print fixedMembers_text rfl (by decide)
    · exact ⟨[], some (column 81 line), memberText_nil, by simp, fun _ => rfl⟩
    · obtain ⟨low, high, hlow, hhigh, range⟩ := fit.attack
      refine print (memberText_num "攻击力" (by decide) (isNumber_intText ((low + high).tdiv 2))) ?_
        (by decide)
      simp [attack rfl, hlow, hhigh, range]
    · have num := row.numbers 175 (by decide)
      exact print
        (memberText_append (memberText_num _ (by decide) num) (memberText_num _ (by decide) num))
        rfl (by decide)
    · exact print (memberText_str _ (by decide) (row.plain 229 (by decide))) rfl (by decide)
    · obtain ⟨p, member, e⟩ := icon_member holds row fit st
      exact print member e (by decide)
    · rw [filterRegex_eq fit.description]
      cases h : env.regexPatten.captured (column 260 line) with
      | none => exact print (memberText_str "描述" (by decide) (s := []) (by decide)) rfl (by decide)
      | some s => exact print (memberText_str _ (by decide) (row.description s h)) rfl (by decide)
    · refine print (memberText_value "location" (by decide) (locations_value row)) ?_ (by decide)
      simp [weaponLocations_eq row fit st.out, WeaponSt.print]
    · omega
    · exact nothing (by assumption)

lemma open_object (row : Exportable env icons line) (fit : WeaponFits env icons line)
    (st : WeaponSt) :
    ∃ p, MemberText p ∧ weaponSwitch env 1 (column 1 line) st = st.print (123 :: p) := by
  obtain ⟨level, hlevel⟩ := fit.level
  have num := row.numbers 1 (by decide)
  have id : Plain (intText st.tmpId) := plain_of_isNumber (isNumber_intText _)
  -- the id is printed twice, with the level behind it or without
  obtain ⟨shown, plain, e⟩ : ∃ shown, Plain shown ∧
      (if level > 1 then intText st.tmpId ++ 95 :: column 1 line else intText st.tmpId) =
          shown := by
    refine ⟨_, ?_, rfl⟩
    split
    · refine List.forall_mem_append.mpr
        ⟨id, List.forall_mem_cons.mpr ⟨by decide, plain_of_isNumber num⟩⟩
    · exact id
  have weapons : ValueText (arrayText [quoted (intText st.tmpId)]) :=
    valueText_array (List.forall_mem_singleton.mpr (valueText_quoted id))
  refine ⟨_,
    memberText_append (memberText_append (memberText_append (memberText_str "_id" (by decide) plain)
    (memberText_value "weapons" (by decide) weapons))
      (memberText_str "collectweapon_id" (by decide) plain))
    (memberText_num "level" (by decide) num), ?_⟩
  subst e
  have look : numberColumns.lookup 1 = none := by decide
  unfold weaponSwitch
  simp only [look, hlevel, Option.bind_eq_bind, Option.bind_some]

/-- Column 267 prints the last member and closes the object. -/
lemma close_object (row : Exportable env icons line) (fit : WeaponFits env icons line)
    (out : List UInt8) :
    ∃ x, ValueText x ∧ weaponEffects env.regexPatten env.nullText (column 267 line) out =
      some (out ++ (quoted (text "以下效果随机出现一种") ++ [58] ++ x ++ [125] ++ [10])) := by
  -- what is printed for a segment can stand in quotes
  have each : ∀ t ∈ tokens effectBreak (column 267 line), ∃ s, Plain s ∧
      weaponShown env.regexPatten env.nullText (column 267 line) t = some s := by
    intro t mem
    rw [weaponShown]
    split
    · exact ⟨[], by decide, rfl⟩
    · rename_i hit
      cases h : env.regexPatten.captured t with
      | none =>
        obtain ⟨s, e, plain⟩ := fit.null hit t mem h
        exact ⟨s, plain, by rw [e]; rfl⟩
      | some s => exact ⟨s, row.effect t mem s h, rfl⟩
  let shown t := (weaponShown env.regexPatten env.nullText (column 267 line) t).getD []
  refine ⟨arrayText ((tokens effectBreak (column 267 line)).map fun t => quoted (shown t)), ?_, ?_⟩
  · apply valueText_array
    intro x mem
    obtain ⟨t, found, rfl⟩ := List.mem_map.mp mem
    obtain ⟨s, plain, e⟩ := each t found
    simp only [shown, e]
    exact valueText_quoted plain
  · have list :=
      effectsLoop_eq (weaponEffect env.regexPatten env.nullText (column 267 line)) shown
      (column_plain 267 line)
      out fit.effect fun t mem l => by
        obtain ⟨s, _, e⟩ := each t mem
        apply weaponEffect_eq fit.effects (fit.effect t mem)
        simp only [shown, e, Option.getD_some]
    have start : effectsOpen = quoted (text "以下效果随机出现一种") ++ [58] ++ [91] := by decide
    have stop : text "]\x7d\n" = [93] ++ [125] ++ [10] := by decide
    rw [weaponEffects, list, start, stop]
    simp [arrayText]

end Members

/-- How far the row is printed before the column `n`. A row of two professions has a name without a
key behind some members. -/
inductive Printed (line : Line) (id : Int) (out : List UInt8) : Nat → WeaponSt → Prop where
  | start :
    Printed line id out 0 { block := false, tmpId := 0, atkMin := none, out }
  | found :
    Printed line id out 1 { block := true, tmpId := id, atkMin := none, out }
  | members {n a atkMin} :
    2 ≤ n → n ≤ 267 →
    MemberText a →
    (28 < n → ¬ TwoProfessions (column 28 line)) →
    (n = 82 → atkMin = some (column 81 line)) →
    Printed line id out n { block := true, tmpId := id, atkMin, out := out ++ 123 :: a }
  | done {n object atkMin} :
    268 ≤ n →
    WellFormedObject object →
    ¬ TwoProfessions (column 28 line) →
    Printed line id out n { block := true, tmpId := id, atkMin, out := out ++ (object ++ [10]) }
  | bare {n a s b atkMin} :
    28 < n →
    MemberText a → Plain s →
    TwoProfessions (column 28 line) →
    (n = 82 → atkMin = some (column 81 line)) →
    Printed line id out n
      { block := true, tmpId := id, atkMin, out := out ++ 123 :: (a ++ (quoted s ++ 44 :: b)) }

lemma weaponSwitch_behind (env : WeaponEnv) {n : Nat} (behind : 268 ≤ n) (title : List UInt8)
    (st : WeaponSt) :
    weaponSwitch env n title st = some st := by
  unfold weaponSwitch
  have look : numberColumns.lookup n = none := by
    apply List.lookup_eq_none_iff.mpr
    have low : ∀ e ∈ numberColumns, e.1 < 268 := by decide
    intro e mem
    have := low e mem
    simp only [bne_iff_ne]
    omega
  rw [look]
  simp only
  split
  all_goals first | rfl | omega

/-- A round prints the row one column further. -/
lemma weaponColumn_printed {env : WeaponEnv} {icons : Set SweetListKv} {line : Line} {signed : Bool}
    {id : Int} {out : List UInt8} {st : WeaponSt} {n : Nat} (holds : Table signed env.htbl icons)
    (row : Exportable env icons line) (fit : WeaponFits env icons line)
    (inRange : atoi (column 0 line) = some id ∧ env.first ≤ id ∧ id ≤ env.last)
    (so_far : Printed line id out n st) :
    ∃ st', weaponColumn env n (column n line) st = some st' ∧ Printed line id out (n + 1) st' := by
  have later : ∀ {m} {st : WeaponSt}, m ≠ 0 → st.block = true →
      weaponColumn env m (column m line) st = weaponSwitch env m (column m line) st := by
    rintro m ⟨_, _, _, _⟩ ne ⟨⟩
    simp [weaponColumn, enterBlock_later ne]
  have look : numberColumns.lookup 267 = none := by decide
  cases so_far with
  | start =>
    have look : numberColumns.lookup 0 = none := by decide
    refine ⟨_, ?_, .found⟩
    simp [weaponColumn, enterBlock_first inRange, weaponSwitch, look, inRange]
  | found =>
    obtain ⟨p, member, e⟩ := open_object row fit { block := true, tmpId := id, atkMin := none, out }
    rw [later (by decide) rfl, e]
    exact ⟨_, rfl, .members le_rfl (by decide) member (fun late => by omega) (fun e => by omega)⟩
  | @members n a atkMin lo hi member single attack =>
    rw [later (by omega) rfl]
    rcases Nat.lt_or_ge n 267 with lt | ge
    · by_cases two : n = 28 ∧ TwoProfessions (column 28 line)
      · obtain ⟨rfl, two⟩ := two
        obtain ⟨p, s, member', plain, e⟩ :=
          two_professions two env { block := true, tmpId := id, atkMin, out := out ++ 123 :: a }
        refine ⟨_, e, ?_⟩
        rw [List.append_assoc, List.cons_append, ← List.append_assoc a]
        exact .bare (by decide) (memberText_append member member') plain two (fun e => by omega)
      · have single' : n = 28 → ¬ TwoProfessions (column 28 line) := fun e h => two ⟨e, h⟩
        obtain ⟨p, atk, member', e, saved⟩ := weaponSwitch_members holds row fit
          { block := true, tmpId := id, atkMin, out := out ++ 123 :: a } lo
            (by omega) single' attack
        refine ⟨_, e, ?_⟩
        rw [List.append_assoc, List.cons_append]
        refine .members (by omega) (by omega) (memberText_append member member') (fun late => ?_)
          fun e => saved (by omega)
        by_cases here : n = 28
        · exact single' here
        · exact single (by omega)
    · obtain rfl : n = 267 := by omega
      obtain ⟨x, value, e⟩ := close_object row fit (out ++ 123 :: a)
      have object := wellFormedObject_of "以下效果随机出现一种" member (by decide) value
      refine ⟨_, ?_, @Printed.done line id out 268 _ atkMin le_rfl object (single (by decide))⟩
      simp [weaponSwitch, look, e]
  | @done n object atkMin behind object_wf single =>
    rw [later (by omega) rfl]
    exact ⟨_, weaponSwitch_behind env behind _ _, .done (by omega) object_wf single⟩
  | @bare n a s b atkMin late member plain two attack =>
    rw [later (by omega) rfl]
    rcases Nat.lt_trichotomy n 267 with lt | rfl | behind
    · obtain ⟨p, atk, _, e, saved⟩ := weaponSwitch_members holds row fit
        { block := true, tmpId := id, atkMin, out := out ++ 123 :: (a ++ (quoted s ++ 44 :: b)) }
        (by omega) (by omega) (fun e => by omega) attack
      refine ⟨_, e, ?_⟩
      simp only [List.append_assoc, List.cons_append]
      exact .bare (by omega) member plain two fun e => saved (by omega)
    · obtain ⟨x, _, e⟩ := close_object row fit (out ++ 123 :: (a ++ (quoted s ++ 44 :: b)))
      refine ⟨{ block := true, tmpId := id, atkMin, out := _ }, by
        simp only [weaponSwitch, look, e]; rfl, ?_⟩
      simp only [List.append_assoc, List.cons_append]
      exact .bare (by decide) member plain two (fun e => by omega)
    · exact ⟨_, weaponSwitch_behind env behind _ _,
        .bare (by omega) member plain two (fun e => by omega)⟩

lemma weaponRow_fold {env : WeaponEnv} {line : Line} {out : List UInt8} {st : WeaponSt}
    (tmp : Vector UInt8 (TITLE_BUF + 1))
    (fits : ∀ f ∈ columns line.chars, f.length < TITLE_BUF + 1)
    (fold : foldColumns (weaponColumn env) 0 (columns line.chars)
      { block := false, tmpId := 0, atkMin := none, out } = some st) :
    ∃ tmp', weaponRow env (line.chars ++ [10]) tmp out = some (st, tmp') := by
  have size : tmp.toList.length = TITLE_BUF + 1 := tmp.length_toList
  obtain ⟨tmp', loop, _⟩ := rowLoop_fold tmp.toList (by rw [size]; exact fits) fold
  rw [size] at loop
  refine ⟨tmp', ?_⟩
  rw [weaponRow, List.length_append, List.length_singleton]
  exact loop

/-- A row that was printed to its end is an object exactly when it is not one of two professions. -/
lemma Printed.object_iff {line : Line} {id : Int} {out : List UInt8} {n : Nat} {st : WeaponSt}
    (printed : Printed line id out n st) (all : 268 ≤ n) :
    (∃ object, st.out = out ++ (object ++ [10]) ∧ WellFormedObject object) ↔
      ¬ TwoProfessions (column 28 line) := by
  cases printed with
  | start => omega
  | found => omega
  | members => omega
  | @done _ object _ _ wf single => exact ⟨fun _ => single, fun _ => ⟨object, rfl, wf⟩⟩
  | @bare _ a s b _ _ member plain two =>
    refine ⟨?_, fun single => absurd two single⟩
    rintro ⟨object, e, wf⟩
    have inside := List.append_cancel_left e
    -- the newline is the last of what is printed behind the name
    rcases List.eq_nil_or_concat b with rfl | ⟨b, c, rfl⟩
    · have ends : 123 :: (a ++ quoted s) ++ [44] = object ++ [10] := by simpa using inside
      exact absurd (List.append_inj' ends rfl).2 (by decide)
    · have ends : 123 :: (a ++ (quoted s ++ 44 :: b)) ++ [c] = object ++ [10] := by
        simpa using inside
      rw [← (List.append_inj' ends rfl).1] at wf
      exact absurd wf (not_wellFormedObject_bare member plain b)

/-- For every table of icons and every row the exporter is meant for, if the row fits the buffers
and the numbers of the code: the row is exported, and what is printed is one JSON object and a
newline exactly when column 28 is not the code of two professions. -/
theorem weapon_row_wellFormed (env : WeaponEnv) (signed : Bool) (icons : Set SweetListKv)
    (holds : Table signed env.htbl icons) (line : Line) (row : Exportable env icons line)
    (fit : WeaponFits env icons line) (tmp : Vector UInt8 (TITLE_BUF + 1)) (out : List UInt8) :
    ∃ st tmp', weaponRow env (line.chars ++ [10]) tmp out = some (st, tmp') ∧
      ((∃ object, st.out = out ++ (object ++ [10]) ∧ WellFormedObject object) ↔
        column 28 line ≠ text "1,8" ∧ column 28 line ≠ text "7,9") := by
  obtain ⟨id, inRange⟩ := row.inRange
  obtain ⟨st, fold, printed⟩ := foldColumns_invariant (weaponColumn env) (Printed line id out)
    (columns line.chars) .start (fun i f st found so_far => by
      rw [Nat.zero_add] at so_far ⊢
      rw [← column_eq found]
      exact weaponColumn_printed holds row fit inRange so_far)
  obtain ⟨tmp', e⟩ := weaponRow_fold tmp fit.fits fold
  rw [Nat.zero_add] at printed
  exact ⟨st, tmp', e, (printed.object_iff row.enough).trans not_or⟩

/-- An icon, and the table that `chtbl_insert_kv` makes of it. -/
def sampleIcon : SweetListKv := { key := text "1", value := text "a.png" }

def sampleTable : Option (TblSt (List UInt8) SweetListKv) :=
  (chtblInit true PRIME_TBLSIZ (hashpjw true) matchSweetListKv true).bind fun htbl =>
    (tblStepBy (kvKey id) { heap := Heap.empty, htbl } (.insert sampleIcon (some 1))).map Prod.snd

lemma sampleTable_holds : ∃ tbl, sampleTable = some tbl ∧ Table true tbl {sampleIcon} := by
  obtain ⟨htbl, init⟩ : ∃ htbl,
    chtblInit true PRIME_TBLSIZ (hashpjw true) matchSweetListKv true = some htbl := ⟨_, rfl⟩
  have empty : Table true ⟨Heap.empty, htbl⟩ ∅ := ⟨_, TblRep.init _ (by decide) init, contents_nil⟩
  obtain ⟨o, tbl, S, spec⟩ :=
    tblStepBy_spec (hashOk_hashpjw true) empty (.insert sampleIcon (some 1))
  refine ⟨tbl, by rw [sampleTable, init, Option.bind_some, spec.step_eq]; rfl, ?_⟩
  have rep := spec.rep
  cases spec.refines with
  | insertDup mem => exact absurd mem (Set.notMem_empty _)
  | insertFail none_same =>
    have fails := ((spec.alloc _ _ rfl).mp rfl).2
    cases fails
  | insert none_same =>
    rw [insert_empty_eq] at rep
    exact rep

/-- A pattern that captures the first number of `"1,1,1"`, as `regex_icon` does. -/
def iconPattern : Regex := .literal (text "1,1,1") 0 1 (Nat.zero_le 1) (Nat.le_of_ble_eq_true rfl)

/-- Ids from 1 to 9, and patterns that match a fixed text only. -/
def sampleEnv (htbl : TblSt (List UInt8) SweetListKv) : WeaponEnv where
  first := 1
  last := 9
  regexPatten := fontPattern
  regexIcon := iconPattern
  regexLocK := fontPattern
  regexLocV := fontPattern
  htbl
  fresh := []
  nullText := none

/-- A row of ones, but for the profession and the icon. -/
def sampleColumns (code : String) : List (List UInt8) :=
  (List.range 268).map fun n => if n = 28 then text code else if n = 232 then text "1,1,1"
    else text "1"

/-- There is a line with these columns. -/
lemma exists_sampleLine {code : String} (field : isField (text code) = true) :
    ∃ line : Line, columns line.chars = sampleColumns code := by
  refine exists_line (fun empty => absurd (List.map_eq_nil_iff.mp empty) (by decide)) fun f mem =>
    ?_
  obtain ⟨n, _, rfl⟩ := List.mem_map.mp mem
  split
  · exact field
  · split <;> decide

section Sample

variable {code : String} {line : Line}

lemma sampleColumns_column (cols : columns line.chars = sampleColumns code) :
    (∀ n, n < 268 ∧ n ≠ 28 ∧ n ≠ 232 → column n line = text "1") ∧
      column 232 line = text "1,1,1" := by
  have col : ∀ n, n < 268 → n ≠ 28 → column n line = if n = 232 then text "1,1,1"
      else text "1" := by
    intro n lt ne
    rw [column, cols, sampleColumns, List.getElem?_map, List.getElem?_range lt]
    simp [ne]
  refine ⟨?_, col 232 (by decide) (by decide)⟩
  rintro n ⟨lt, ne, other⟩
  rw [col n lt ne, if_neg other]

/-- The columns 266 and 267 of such a row are one segment, which does not match. -/
lemma sample_segments :
    tokens lineBreak (text "1") = [text "1"] ∧ tokens effectBreak (text "1") = [text "1"] ∧
    fontPattern.captured (text "1") = none := by decide

/-- Such a row is one the exporter is meant for. -/
lemma sample_exportable (cols : columns line.chars = sampleColumns code)
    (tbl : TblSt (List UInt8) SweetListKv) : Exportable (sampleEnv tbl) {sampleIcon} line := by
  obtain ⟨one, icon⟩ := sampleColumns_column cols
  obtain ⟨lines, effects, miss⟩ := sample_segments
  have key : iconPattern.captured (text "1,1,1") = some (text "1") := by decide
  refine ⟨⟨1, ?_, le_refl 1, show (1 : Int) ≤ 9 by decide⟩, ?_, ?_, ?_, ⟨sampleIcon, rfl, ?_⟩, ?_,
    ?_, ?_⟩
  · rw [one 0 (by decide)]
    decide
  · rw [cols, sampleColumns, List.length_map, List.length_range]
  · have all : ∀ n ∈ 1 :: 175 :: numberColumns.map Prod.fst, n < 268 ∧ n ≠ 28 ∧ n ≠ 232 := by decide
    intro n mem
    rw [one n (all n mem)]
    decide
  · have all : ∀ n ∈ [14, 34, 229], n < 268 ∧ n ≠ 28 ∧ n ≠ 232 := by decide
    intro n mem
    rw [one n (all n mem)]
    decide
  · rw [icon]
    exact key
  · intro s h
    rw [one 260 (by decide)] at h
    cases miss.symm.trans h
  · intro t mem k h
    rw [one 266 (by decide), lines, List.mem_singleton] at mem
    rw [mem] at h
    cases miss.symm.trans h
  · intro t mem s h
    rw [one 267 (by decide), effects, List.mem_singleton] at mem
    rw [mem] at h
    cases miss.symm.trans h

/-- Such a row fits, if the code of the profession does. -/
lemma sample_fits (cols : columns line.chars = sampleColumns code)
    (short : (text code).length < TITLE_BUF + 1) (tbl : TblSt (List UInt8) SweetListKv) :
    WeaponFits (sampleEnv tbl) {sampleIcon} line := by
  obtain ⟨one, icon⟩ := sampleColumns_column cols
  obtain ⟨lines, effects, miss⟩ := sample_segments
  have number : ∀ n, n < 268 ∧ n ≠ 28 ∧ n ≠ 232 → atoi (column n line) = some 1 := by
    intro n other
    rw [one n other]
    decide
  refine ⟨?_, ⟨1, number 1 (by decide)⟩,
    ⟨1, 1, number 81 (by decide), number 82 (by decide), by decide⟩, ?_, ?_, ?_, ?_, ?_, ?_, ?_⟩
  · intro f mem
    rw [cols, sampleColumns] at mem
    obtain ⟨n, _, rfl⟩ := List.mem_map.mp mem
    split
    · exact short
    · split <;> decide
  · rw [icon]
    exact Regex.fits_of_length (by decide)
  · rintro e rfl _
    decide
  · rw [one 260 (by decide)]
    exact Regex.fits_of_length (by decide)
  · rw [one 266 (by decide), lines]
    decide
  · rw [one 267 (by decide)]
    exact Regex.fits_of_length (by decide)
  · rw [one 267 (by decide), effects]
    decide
  · intro hit
    rw [one 267 (by decide)] at hit
    exact absurd miss hit

end Sample

/-- A row of one profession. -/
theorem weapon_row_wellFormed_one :
    ∃ line : Line, columns line.chars = sampleColumns "1,0" ∧
    ∃ tbl, Table true tbl {sampleIcon} ∧ Exportable (sampleEnv tbl) {sampleIcon} line ∧
      WeaponFits (sampleEnv tbl) {sampleIcon} line ∧
    ∃ object st tmp',
      weaponRow (sampleEnv tbl) (line.chars ++ [10]) (Vector.replicate _ 0) [] = some (st, tmp') ∧
      st.out = object ++ [10] ∧ WellFormedObject object := by
  obtain ⟨tbl, _, holds⟩ := sampleTable_holds
  obtain ⟨line, cols⟩ : ∃ line : Line, columns line.chars = sampleColumns "1,0" :=
    exists_sampleLine (by decide)
  have row := sample_exportable cols tbl
  have fit := sample_fits cols (by decide) tbl
  have code : column 28 line = text "1,0" := by
    rw [column, cols]
    decide +kernel
  obtain ⟨st, tmp', e, iff⟩ :=
    weapon_row_wellFormed (sampleEnv tbl) true {sampleIcon} holds line row
    fit (Vector.replicate _ 0) []
  obtain ⟨object, printed, wf⟩ := iff.mpr (by rw [code]; decide)
  exact ⟨line, cols, tbl, holds, row, fit, object, st, tmp', e, printed, wf⟩

/-- What is printed for a row of ones with the code `"1,8"`. -/
def twoProfessions : List UInt8 :=
  text "\x7b\"_id\":\"1\",\"weapons\":[\"1\"],\"collectweapon_id\":\"1\",\"level\":1,\"售价\":1," ++
  text "\"不可交易\":\"1\",\"gear_score\":1,\"需要等级\":1,\"职业\":\"剑师\",\"灵剑士\",\"item_grade\":\"1\"," ++
  text "\"耐久度\":\"100/100\",\"disable\":0,\"growth_level_exp\":\"0\",\"growth_recipe_cost\":0," ++
  text "\"mesh_id\":0,\"hidden\":0,\"集中\":0,\"额外伤害\":0,\"攻击力\":1,\"防御\":1,\"命中\":1,\"穿刺\":1," ++
  text "\"暴击\":1,\"暴击防御\":1,\"闪避\":1,\"格挡\":1,\"最大生命\":1,\"恢复\":1,\"战斗中恢复\":1,\"name\":\"1\"," ++
  text "\"icon\":\"a.png\",\"描述\":\"\",\"location\":[],\"以下效果随机出现一种\":[\"\"]\x7d"

/-- A row of two professions: the second name is printed without a key, and the text is not JSON. -/
theorem two_professions_not_wellFormed :
    ∃ line : Line, columns line.chars = sampleColumns "1,8" ∧
    ∃ tbl, Table true tbl {sampleIcon} ∧ Exportable (sampleEnv tbl) {sampleIcon} line ∧
      WeaponFits (sampleEnv tbl) {sampleIcon} line ∧
    ∃ st tmp', weaponRow (sampleEnv tbl) (line.chars ++ [10]) (Vector.replicate _ 0) [] =
      some (st, tmp') ∧
      st.out = twoProfessions ++ [10] ∧ ¬ WellFormedObject twoProfessions := by
  obtain ⟨tbl, made, holds⟩ := sampleTable_holds
  obtain ⟨line, cols⟩ : ∃ line : Line, columns line.chars = sampleColumns "1,8" :=
    exists_sampleLine (by decide)
  have row := sample_exportable cols tbl
  have fit := sample_fits cols (by decide) tbl
  have fold :
    (sampleTable.bind fun tbl => (foldColumns (weaponColumn (sampleEnv tbl)) 0 (sampleColumns "1,8")
      { block := false, tmpId := 0, atkMin := none, out := [] }).map WeaponSt.out) =
          some (twoProfessions ++ [10]) := by
    decide +kernel
  rw [made, Option.bind_some] at fold
  obtain ⟨st, fold, out⟩ := Option.map_eq_some_iff.mp fold
  rw [← cols] at fold
  obtain ⟨tmp', e⟩ := weaponRow_fold (Vector.replicate _ 0) fit.fits fold
  exact ⟨line, cols, tbl, holds, row, fit, st, tmp', e, out,
    not_wellFormedObject (by decide +kernel)⟩

end SweetClib.Bns
