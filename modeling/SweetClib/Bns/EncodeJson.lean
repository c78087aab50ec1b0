import SweetClib.Lib.JsonEscape
import SweetClib.Lib.UrlEncode

/-!
# Nested arrays as JSON without escapes

`encode_json` of `collect_gem.php` prints an array as JSON with the characters outside of ASCII as
they are. It encodes all strings and keys for a URL (`urlEncode`), so that `json_encode` has
nothing to escape, and decodes the whole text that `json_encode` returns.

A value is a string or an array; the keys of an array are written as strings, since an integer and
the decimal string of it are the same key. The loop of `url_encode` runs over the entries that the
array had at its start and changes the array itself. Whether a key is changed is a comparison with
`!=`, for which two different spellings of one number are equal. That comparison, and what
`json_encode` makes of strings outside of ASCII, are a parameter (`Php`); for all else
`json_encode`, `urlencode` and `urldecode` are as documented, including the limit of the nesting
depth.

The loop leaves entries of the array with encoded keys, and it leaves all of them exactly when no
key is encoded to a key that comes later (`Left.perm_iff`). Every part of the text decodes to the
raw text of an entry that is left (`Printed`). If the strings and keys are plain, that is the text
of one JSON value; and they have to be plain, since a text that holds what the array holds would
have more backslashes and letters `u` otherwise than there are in the array (`plain_of_same`).
-/

namespace SweetClib.Bns.EncodeJson
open SweetClib.Lib SweetClib.Lib.OrderedMap SweetClib.Lib.NestedMap

/-- A string or an array. -/
inductive Value where
  | str (s : List UInt8)
  | arr (entries : List (List UInt8 × Value))

instance : NestedMap Value where
  node
    | .str s => .str s
    | .arr _ => .map
  entries
    | .str _ => []
    | .arr es => es

/-- The bytes a numeric string can have: blanks, signs, digits (hexadecimal ones as well), the
point and the letters of an exponent and of `0x`. -/
def numericByte (c : UInt8) : Bool := c ∈ text " \t\n\r\x0b\x0c+-.0123456789abcdefABCDEFxX"

/-- What is left open of PHP: the comparison `==` of two strings, which compares two numeric
strings as numbers, and `json_encode` of a string that is not ASCII. -/
structure Php where
  looseEq : List UInt8 → List UInt8 → Bool
  looseEq_refl : ∀ s, looseEq s s = true
  looseEq_numeric : ∀ s t, looseEq s t = true → s = t ∨ ∀ c ∈ s ++ t, numericByte c = true
  wide : List UInt8 → Option (List UInt8)

variable (php : Php)

mutual

/-- PHP `url_encode`. -/
def urlEncode : Value → Value
  | .str s => .str (urlencode s)
  | .arr es => .arr (urlEncodeLoop es es)

/-- The loop over the entries `(k, v)`; the second argument is the array that is changed. -/
def urlEncodeLoop :
    List (List UInt8 × Value) → List (List UInt8 × Value) → List (List UInt8 × Value)
  | [], arr => arr
  | (k, v) :: es, arr =>
    if !php.looseEq k (urlencode k) then
      urlEncodeLoop es (unset k (put (urlencode k) (urlEncode v) arr))
    else urlEncodeLoop es (put k (urlEncode v) arr)

end

/-- A hexadecimal digit as `json_encode` writes it. -/
def lowerHex (n : Nat) : UInt8 := if n < 10 then 48 + UInt8.ofNat n else 87 + UInt8.ofNat n

/-- A byte of a string in JSON. -/
def escapeByte (c : UInt8) : List UInt8 :=
  if c = 34 ∨ c = 92 ∨ c = 47 then [92, c]
  else if c = 8 then text "\\b"
  else if c = 12 then text "\\f"
  else if c = 10 then text "\\n"
  else if c = 13 then text "\\r"
  else if c = 9 then text "\\t"
  else if c < 32 then text "\\u00" ++ [lowerHex (c.toNat / 16), lowerHex (c.toNat % 16)]
  else [c]

/-- A string in quotes (PHP `json_encode`); the bytes above 127 are left to `wide`. -/
def jsonString (s : List UInt8) : Option (List UInt8) :=
  if s.all (· < 128) then some (quoted (s.flatMap escapeByte)) else php.wide s

/-- The keys are the positions. -/
def isList (ks : List (List UInt8)) : Bool := ks = (List.range ks.length).map natText

mutual

/-- `json_encode`; the first argument is the depth of arrays that is left. -/
def jsonEncode : Nat → Value → Option (List UInt8)
  | _, .str s => jsonString php s
  | 0, .arr _ => none
  | n + 1, .arr es => (jsonEntries n es).map fun xs =>
    if isList (keys es) then arrayText (xs.map Prod.snd) else objectText xs

/-- The texts of the keys and of the values. -/
def jsonEntries : Nat → List (List UInt8 × Value) → Option (List (List UInt8 × List UInt8))
  | _, [] => some []
  | n, (k, v) :: es =>
    match jsonString php k, jsonEncode n v, jsonEntries n es with
    | some key, some x, some xs => some ((key, x) :: xs)
    | _, _, _ => none

end

/-- The depth of arrays that `json_encode` accepts. -/
def jsonDepth : Nat := 512

/-- `encode_json`; where `json_encode` fails, the text is that of `false`, which is empty. -/
def encodeJson (v : Value) :
    List UInt8 := urldecode ((jsonEncode php jsonDepth (urlEncode php v)).getD [])

/-- A string of the value satisfies the property. -/
def OnString (P : List UInt8 → Prop) : Node → Prop
  | .str s => P s
  | _ => True

/-- All strings are in UTF-8, and the keys of an array are distinct. -/
def Valid (v : Value) : Prop := Everywhere (OnString Utf8) (fun ks => ks.Nodup ∧ ∀ k ∈ ks, Utf8 k) v

/-- A value of PHP. -/
structure PhpValue where
  val : Value
  valid : Valid val

/-- The text is well-formed JSON without repeated keys, and it holds what the value holds. -/
def RoundTrips (v : Value) : Prop :=
  ∃ json, Parses (encodeJson php v) json ∧ Everywhere (fun _ => True) List.Nodup json ∧ Same json v

/-- No key that is changed becomes one that comes later. -/
def NoClash (ks : List (List UInt8)) : Prop :=
  ks.Pairwise fun a b => php.looseEq a (urlencode a) = false → urlencode a ≠ b

/-- No string has a character that JSON escapes, and no keys clash. -/
def Encodable (v : Value) : Prop :=
  Everywhere (OnString Plain) (fun ks => NoClash php ks ∧ ∀ k ∈ ks, Plain k) v

/-- Arrays are nested up to a depth. -/
inductive NestedTo : Nat → Value → Prop where
  | str {n s} :
    NestedTo n (.str s)
  | arr {n es} :
    (∀ e ∈ es, NestedTo n e.2) →
    NestedTo (n + 1) (.arr es)

/-- The key of an entry behind `url_encode`. -/
def newKey (k : List UInt8) : List UInt8 := if !php.looseEq k (urlencode k) then urlencode k else k

section Keys

variable {php} {k : List UInt8}

/-- A key that is not changed is its own encoding, or it has blanks and bytes that encoding keeps
only. -/
lemma looseEq_urlencode (same : php.looseEq k (urlencode k) = true) :
    urlencode k = k ∨ ∀ c ∈ k, isUnreserved c = true ∨ c = 32 := by
  obtain e | numeric := php.looseEq_numeric _ _ same
  · exact .inl e.symm
  · right
    -- a numeric string has no `%`
    intro c mem
    refine unreserved_or_blank (fun percent => ?_) mem
    have digit := numeric 37 (List.mem_append_right _ percent)
    exact absurd digit (by decide)

/-- An encoded key is not a key that stays, unless that one is its own encoding. -/
lemma eq_of_urlencode_eq {j : List UInt8} (same : php.looseEq k (urlencode k) = true)
    (e : urlencode j = k) : j = k := by
  have own : urlencode k = k := by
    obtain own | bytes := looseEq_urlencode same
    · exact own
    · -- the bytes of an encoding are not blanks, so all bytes of the key are kept
      apply urlencode_eq_self
      intro c mem
      obtain stays | rfl := bytes c mem
      · exact stays
      · rw [← e] at mem
        obtain h | h | h := mem_urlencode mem <;> cases h
  exact urlencode_injective (e.trans own.symm)

/-- Bytes that `json_encode` leaves alone. -/
def verbatim (c : UInt8) : Bool := isUnreserved c || c == 43 || c == 37 || c == 32

/-- A byte that needs no escape is printed as it is. -/
lemma escapeByte_verbatim {c : UInt8} (h : verbatim c = true) : c < 128 ∧ escapeByte c = [c] := by
  have all : ∀ n < 256, verbatim (UInt8.ofNat n) = true →
      UInt8.ofNat n < 128 ∧ escapeByte (UInt8.ofNat n) = [UInt8.ofNat n] := by decide +kernel
  have this := all c.toNat c.toNat_lt
  rw [UInt8.ofNat_toNat] at this
  exact this h

/-- So is a string of such bytes. -/
lemma jsonString_verbatim {s : List UInt8} (h : ∀ c ∈ s, verbatim c = true) :
    jsonString php s = some (quoted s) := by
  have ascii : s.all (· < 128) = true := by
    rw [List.all_eq_true]
    intro c mem
    simpa using (escapeByte_verbatim (h c mem)).1
  have same : s.flatMap escapeByte = s := by
    rw [List.flatMap_congr fun c mem => (escapeByte_verbatim (h c mem)).2, List.flatMap_singleton']
  rw [jsonString, if_pos ascii, same]

/-- An encoded text needs no escape. -/
lemma verbatim_urlencode (s : List UInt8) : ∀ c ∈ urlencode s, verbatim c = true := by
  intro c mem
  obtain h | rfl | rfl := mem_urlencode mem
  · simp [verbatim, h]
  · rfl
  · rfl

/-- The key behind `url_encode`: `json_encode` leaves it alone, and it decodes to the key. -/
lemma newKey_spec (k : List UInt8) :
    jsonString php (newKey php k) = some (quoted (newKey php k)) ∧ Decodes (newKey php k) k := by
  rw [newKey]
  split
  · exact ⟨jsonString_verbatim (verbatim_urlencode k), decodes_urlencode k⟩
  · rename_i same
    have kept : php.looseEq k (urlencode k) = true := by simpa using same
    obtain own | bytes := looseEq_urlencode kept
    · have encoded := decodes_urlencode k
      have bytes := verbatim_urlencode k
      rw [own] at encoded bytes
      exact ⟨jsonString_verbatim bytes, encoded⟩
    · constructor
      · apply jsonString_verbatim
        intro c mem
        obtain h | rfl := bytes c mem
        · simp [verbatim, h]
        · rfl
      · apply decodes_self
        intro c mem
        obtain h | rfl := bytes c mem
        · exact ne_of_isUnreserved h
        · decide

end Keys

/-- An entry behind `url_encode`. -/
def encodeEntry (e : List UInt8 × Value) : List UInt8 × Value :=
  (newKey php e.1, urlEncode php e.2)

/-- One round of the loop. -/
def encodeStep (e : List UInt8 × Value) (arr : List (List UInt8 × Value)) :
    List (List UInt8 × Value) :=
  if !php.looseEq e.1 (urlencode e.1) then
    unset e.1 (put (urlencode e.1) (urlEncode php e.2) arr)
  else put e.1 (urlEncode php e.2) arr

/-- The entries that are left behind `url_encode`, as they were before. -/
structure Left (es l : List (List UInt8 × Value)) : Prop where
  loop : urlEncodeLoop php es es = l.map (encodeEntry php)
  distinct : (keys l).Nodup
  some : l.Subperm es

section Loop

variable {php} {e x : List UInt8 × Value} {es arr l : List (List UInt8 × Value)}

/-- The loop is one step, and the loop over the rest. -/
lemma urlEncodeLoop_cons (e : List UInt8 × Value) (es arr : List (List UInt8 × Value)) :
    urlEncodeLoop php (e :: es) arr = urlEncodeLoop php es (encodeStep php e arr) := by
  obtain ⟨k, v⟩ := e
  rw [urlEncodeLoop, encodeStep]
  split <;> rfl

/-- A key that compares unequal to its encoding is replaced by it. -/
lemma newKey_moved {k : List UInt8} (move : php.looseEq k (urlencode k) = false) :
    newKey php k = urlencode k := by
  rw [newKey, move]
  rfl

/-- A key that compares equal to its encoding stays. -/
lemma newKey_stayed {k : List UInt8} (stay : php.looseEq k (urlencode k) = true) :
    newKey php k = k := by
  rw [newKey, stay]
  rfl

/-- A step keeps the keys distinct. -/
lemma nodup_encodeStep (distinct : (keys arr).Nodup) : (keys (encodeStep php e arr)).Nodup := by
  rw [encodeStep]
  split
  · exact nodup_unset (nodup_put distinct)
  · exact nodup_put distinct

/-- A round leaves the new entry and those with other keys. -/
lemma mem_encodeStep (distinct : (keys arr).Nodup) (mem : x ∈ encodeStep php e arr) :
    x = encodeEntry php e ∨ x ∈ arr ∧ x.1 ≠ e.1 := by
  rw [encodeStep] at mem
  cases stay : php.looseEq e.1 (urlencode e.1) with
  | true =>
    rw [if_neg (by simp [stay])] at mem
    refine (mem_put distinct mem).imp_left fun new => ?_
    rw [new, encodeEntry, newKey_stayed stay]
  | false =>
    rw [if_pos (by simp [stay])] at mem
    obtain ⟨mem, other⟩ := mem_unset.mp mem
    refine (mem_put distinct mem).imp (fun new => ?_) fun old => ⟨old.1, other⟩
    rw [new, encodeEntry, newKey_moved stay]

/-- The loop leaves new entries, and those whose keys it does not come to. -/
lemma mem_urlEncodeLoop (distinct : (keys arr).Nodup) (mem : x ∈ urlEncodeLoop php es arr) :
    x ∈ es.map (encodeEntry php) ∨ x ∈ arr ∧ x.1 ∉ keys es := by
  induction es generalizing arr with
  | nil => exact .inr ⟨mem, List.not_mem_nil⟩
  | cons e es ih =>
    rw [urlEncodeLoop_cons] at mem
    obtain new | ⟨mem, later⟩ := ih (nodup_encodeStep distinct) mem
    · exact .inl (List.mem_cons_of_mem _ new)
    · obtain rfl | ⟨mem, other⟩ := mem_encodeStep distinct mem
      · exact .inl List.mem_cons_self
      · exact .inr ⟨mem, List.not_mem_cons_of_ne_of_not_mem other later⟩

/-- So does the loop. -/
lemma nodup_urlEncodeLoop (distinct : (keys arr).Nodup) :
    (keys (urlEncodeLoop php es arr)).Nodup := by
  induction es generalizing arr with
  | nil => rwa [urlEncodeLoop]
  | cons e es ih =>
    rw [urlEncodeLoop_cons]
    exact ih (nodup_encodeStep distinct)

/-- The loop leaves some list of entries. -/
lemma exists_left (distinct : (keys es).Nodup) : ∃ l, Left php es l := by
  have mem : ∀ x ∈ urlEncodeLoop php es es, ∃ e ∈ es, encodeEntry php e = x := by
    intro x mem
    obtain new | ⟨mem, absent⟩ := mem_urlEncodeLoop distinct mem
    · exact List.mem_map.mp new
    · exact absurd (mem_keys mem) absent
  have : Nonempty (List UInt8 × Value) := ⟨([], .str [])⟩
  choose! old there new using mem
  have loop : urlEncodeLoop php es es =
      ((urlEncodeLoop php es es).map old).map (encodeEntry php) := by
    rw [List.map_map, List.map_congr_left fun x mem => ?_, List.map_id]
    exact new x mem
  -- different new keys are those of different entries
  have nodup : (keys ((urlEncodeLoop php es es).map old)).Nodup := by
    refine .of_map (newKey php) ?_
    have all : (keys (urlEncodeLoop php es es)).Nodup := nodup_urlEncodeLoop distinct
    rw [loop, keys, List.map_map] at all
    rwa [keys, List.map_map]
  refine ⟨_, loop, nodup, List.subperm_of_subset (.of_map Prod.fst nodup) fun e mem => ?_⟩
  obtain ⟨x, mem', rfl⟩ := List.mem_map.mp mem
  exact there x mem'

/-- A round keeps the number of entries, unless the new key is there already. -/
lemma length_encodeStep (distinct : (keys arr).Nodup) (there : e.1 ∈ keys arr)
    (free : php.looseEq e.1 (urlencode e.1) = false → urlencode e.1 ∉ keys arr) :
    (encodeStep php e arr).length = arr.length := by
  rw [encodeStep]
  cases stay : php.looseEq e.1 (urlencode e.1) with
  | true => rw [if_neg (by simp), length_put, if_pos there]
  | false =>
    have old : e.1 ∈ keys (put (urlencode e.1) (urlEncode php e.2) arr) := by
      rw [keys_put, if_neg (free stay)]
      exact List.mem_append_left _ there
    have one := length_unset (nodup_put distinct) old
    rw [length_put, if_neg (free stay)] at one
    rw [if_pos (by simp)]
    exact Nat.succ.inj one

/-- Other keys stay where they are. -/
lemma mem_keys_encodeStep {k : List UInt8} (mem : k ∈ keys arr) (other : k ≠ e.1) :
    k ∈ keys (encodeStep php e arr) := by
  have put (j : List UInt8) (v : Value) : k ∈ keys (put j v arr) := by
    rw [keys_put]
    split
    · exact mem
    · exact List.mem_append_left _ mem
  rw [encodeStep]
  split
  · rw [keys_unset]
    exact List.mem_filter.mpr ⟨put _ _, decide_eq_true other⟩
  · exact put _ _

/-- Without a clash no entry is lost. The keys of the array are those ahead and the new ones of the
entries before, and a new key is neither. -/
lemma length_urlEncodeLoop {before : List (List UInt8 × Value)}
    (apart : (keys (before ++ es)).Nodup) (kept : NoClash php (keys es))
    (distinct : (keys arr).Nodup) (ahead : ∀ k ∈ keys es, k ∈ keys arr)
    (there : ∀ x ∈ arr, x.1 ∈ keys es ∨ x ∈ before.map (encodeEntry php)) :
    (urlEncodeLoop php es arr).length = arr.length := by
  induction es generalizing before arr with
  | nil => rw [urlEncodeLoop]
  | cons e es ih =>
    obtain ⟨notLater, kept'⟩ := List.pairwise_cons.mp kept
    have split : before ++ e :: es = before ++ [e] ++ es := by simp
    have free (move : php.looseEq e.1 (urlencode e.1) = false) : urlencode e.1 ∉ keys arr := by
      intro mem
      obtain ⟨x, mem, same⟩ := List.mem_map.mp mem
      obtain later | new := there x mem
      · rw [same] at later
        obtain own | later := List.mem_cons.mp later
        · rw [own, php.looseEq_refl] at move
          cases move
        · exact notLater _ later move rfl
      · obtain ⟨b, mem', rfl⟩ := List.mem_map.mp new
        have other : b.1 ≠ e.1 := by
          rw [keys, List.map_append] at apart
          exact (List.nodup_append.mp apart).2.2 _ (mem_keys mem') _ List.mem_cons_self
        rw [encodeEntry] at same
        cases stay : php.looseEq b.1 (urlencode b.1) with
        | true =>
          rw [newKey_stayed stay] at same
          exact other (eq_of_urlencode_eq stay same.symm).symm
        | false =>
          rw [newKey_moved stay] at same
          exact other (urlencode_injective same)
    have later : ∀ k ∈ keys es, k ≠ e.1 := by
      rintro k mem rfl
      rw [keys, List.map_append, List.map_cons] at apart
      exact (List.nodup_cons.mp (List.nodup_append.mp apart).2.1).1 mem
    rw [urlEncodeLoop_cons, @ih (encodeStep php e arr) (before ++ [e]) (split ▸ apart) kept'
      (nodup_encodeStep distinct), length_encodeStep distinct (ahead _ List.mem_cons_self) free]
    · exact fun k mem =>
        mem_keys_encodeStep (ahead k (List.mem_cons_of_mem _ mem)) (later k mem)
    · intro x mem
      obtain rfl | ⟨mem, other⟩ := mem_encodeStep distinct mem
      · exact .inr (List.mem_map_of_mem (List.mem_append_right _ List.mem_cons_self))
      · refine (there x mem).imp (fun mem => List.mem_of_ne_of_mem other mem) fun mem => ?_
        rw [List.map_append]
        exact List.mem_append_left _ mem

/-- When all new keys are there behind the loop, no keys clashed: a key that comes later is taken
out. -/
lemma noClash_of_keys (apart : (keys es).Nodup) (distinct : (keys arr).Nodup)
    (all : ∀ k ∈ keys es, newKey php k ∈ keys (urlEncodeLoop php es arr)) :
    NoClash php (keys es) := by
  induction es generalizing arr with
  | nil => exact .nil
  | cons e es ih =>
    rw [urlEncodeLoop_cons] at all
    obtain ⟨notLater, apart⟩ := List.nodup_cons.mp apart
    have rest :=
      ih apart (nodup_encodeStep distinct) fun k mem => all k (List.mem_cons_of_mem _ mem)
    refine .cons (fun b mem move clash => ?_) rest
    have survives := all e.1 List.mem_cons_self
    rw [newKey_moved move, clash] at survives
    obtain ⟨x, mem', own⟩ := List.mem_map.mp survives
    obtain new | ⟨_, absent⟩ := mem_urlEncodeLoop (nodup_encodeStep distinct) mem'
    · obtain ⟨d, later, rfl⟩ := List.mem_map.mp new
      have other : d.1 ≠ e.1 := fun same => notLater (same ▸ mem_keys later)
      cases stay : php.looseEq d.1 (urlencode d.1) with
      | true =>
        refine other (eq_of_urlencode_eq stay ?_).symm
        rw [clash, ← own, encodeEntry, newKey_stayed stay]
      | false =>
        refine other (urlencode_injective ?_)
        rw [clash, ← own, encodeEntry, newKey_moved stay]
    · exact absurd mem (own ▸ absent)

/-- All entries are left exactly when no keys clash. -/
lemma Left.perm_iff (left : Left php es l) (apart : (keys es).Nodup) :
    l.Perm es ↔ NoClash php (keys es) := by
  constructor
  · intro perm
    refine noClash_of_keys apart apart fun k mem => ?_
    obtain ⟨e, mem', rfl⟩ := List.mem_map.mp mem
    rw [left.loop, keys, List.map_map]
    exact List.mem_map.mpr ⟨e, perm.mem_iff.mpr mem', rfl⟩
  · intro kept
    have same : (urlEncodeLoop php es es).length = es.length :=
      length_urlEncodeLoop (show (keys ([] ++ es)).Nodup from apart) kept apart (fun _ mem => mem)
        fun _ mem => .inl (mem_keys mem)
    refine left.some.perm_of_length_le ?_
    rw [left.loop] at same
    rw [List.length_map] at same
    exact same.ge

end Loop

/-- A string is decoded between its quotes. -/
lemma decodes_quoted {x y : List UInt8} (h : Decodes x y) : Decodes (quoted x) (quoted y) := by
  have quote : Decodes [34] [34] := decodes_byte (by decide) (by decide)
  exact quote.append (h.append quote)

/-- An array is decoded item by item. -/
lemma decodes_array {ι : Type*} {l : List ι} {x y : ι → List UInt8}
    (each : ∀ i ∈ l, Decodes (x i) (y i)) :
    Decodes (arrayText (l.map x)) (arrayText (l.map y)) := by
  have open' : Decodes [91] [91] := decodes_byte (by decide) (by decide)
  have comma : Decodes [44] [44] := decodes_byte (by decide) (by decide)
  have close : Decodes [93] [93] := decodes_byte (by decide) (by decide)
  exact open'.append ((decodes_intercalate comma each).append close)

/-- An object is decoded member by member. -/
lemma decodes_object {ι : Type*} {l : List ι} {k k' x y : ι → List UInt8}
    (keys : ∀ i ∈ l, Decodes (k i) (k' i)) (each : ∀ i ∈ l, Decodes (x i) (y i)) :
    Decodes (objectText (l.map fun i => (k i, x i))) (objectText (l.map fun i => (k' i, y i))) := by
  have brace : Decodes [123] [123] := decodes_byte (by decide) (by decide)
  have colon : Decodes [58] [58] := decodes_byte (by decide) (by decide)
  have comma : Decodes [44] [44] := decodes_byte (by decide) (by decide)
  have close : Decodes [125] [125] := decodes_byte (by decide) (by decide)
  have members : ∀ i ∈ l, Decodes (k i ++ [58] ++ x i) (k' i ++ [58] ++ y i) :=
    fun i mem => ((keys i mem).append colon).append (each i mem)
  rw [objectText, objectText, List.map_map, List.map_map]
  exact brace.append ((decodes_intercalate comma members).append close)

/-- What is printed of a value that fits into a depth: the decoded text, and what it is as JSON if
all strings are plain. The entries of an array are those that `url_encode` leaves. -/
inductive Printed : Nat → Value → List UInt8 → Json → Prop where
  | str {n s} :
    Printed n (.str s) (quoted s) (.str s)
  | list {n es l} {y : List UInt8 × Value → List UInt8} {json : List UInt8 × Value → Json} :
    Left php es l →
    l.map Prod.fst = (List.range l.length).map natText →
    (∀ e ∈ l, Printed n e.2 (y e) (json e)) →
    Printed (n + 1) (.arr es) (arrayText (l.map y)) (.arr (l.map json))
  | object {n es l} {y : List UInt8 × Value → List UInt8} {json : List UInt8 × Value → Json} :
    Left php es l →
    (∀ e ∈ l, Printed n e.2 (y e) (json e)) →
    Printed (n + 1) (.arr es) (objectText (l.map fun e => (quoted e.1, y e)))
      (.obj (l.map fun e => (e.1, json e)))

/-- All strings and keys are plain. -/
def PlainValue (v : Value) : Prop :=
  Everywhere (OnString Plain) (fun ks => ∀ k ∈ ks, Plain k) v

/-- No keys clash. -/
def Unclashed (v : Value) : Prop := Everywhere (fun _ => True) (NoClash php) v

/-- The marks of the strings and keys of a value. -/
def Value.marks : Value → Nat
  | .str s => Lib.marks s
  | .arr es => (es.map fun e => Lib.marks e.1 + e.2.marks).sum
decreasing_by
  have := List.sizeOf_lt_of_mem ‹_›
  cases e
  rw [Prod.mk.sizeOf_spec] at this
  decreasing_tactic

section Encode

variable {php} {n : Nat} {v : Value} {es l : List (List UInt8 × Value)} {x : List UInt8}

/-- What is printed for a string. -/
lemma jsonEncode_str (s : List UInt8) :
    jsonEncode php n (urlEncode php (.str s)) = some (quoted (urlencode s)) := by
  rw [urlEncode]
  cases n <;> exact jsonString_verbatim (verbatim_urlencode s)

/-- The texts of the entries, if all have one. -/
lemma jsonEntries_map {x : List UInt8 × Value → List UInt8}
    (each : ∀ e ∈ l, jsonEncode php n (urlEncode php e.2) = some (x e)) :
    jsonEntries php n (l.map (encodeEntry php)) =
      some (l.map fun e => (quoted (newKey php e.1), x e)) := by
  induction l with
  | nil => rw [List.map_nil, jsonEntries, List.map_nil]
  | cons e l ih =>
    obtain ⟨first, rest⟩ := List.forall_mem_cons.mp each
    rw [List.map_cons, encodeEntry, jsonEntries, (newKey_spec e.1).1, first, ih rest, List.map_cons]

/-- If the entries are encoded, each of them is. -/
lemma of_jsonEntries {xs : List (List UInt8 × List UInt8)}
    (encoded : jsonEntries php n (l.map (encodeEntry php)) = some xs) :
    ∀ e ∈ l, ∃ x, jsonEncode php n (urlEncode php e.2) = some x := by
  induction l generalizing xs with
  | nil => exact fun e mem => absurd mem List.not_mem_nil
  | cons e l ih =>
    rw [List.map_cons, encodeEntry, jsonEntries] at encoded
    split at encoded
    next key x ys _ first rest => exact List.forall_mem_cons.mpr ⟨⟨x, first⟩, ih rest⟩
    · cases encoded

/-- A value that is not nested too deep is encoded. -/
lemma exists_encoded (valid : Valid v) (nested : NestedTo n v) :
    ∃ x, jsonEncode php n (urlEncode php v) = some x := by
  induction nested with
  | str => exact ⟨_, jsonEncode_str _⟩
  | @arr n es _ ih =>
    obtain ⟨_, ⟨distinct, _⟩, each⟩ := valid
    obtain ⟨l, left⟩ : ∃ l, Left php es l := exists_left distinct
    choose! x encoded using fun e mem => ih e mem (each e mem)
    have entries := jsonEntries_map fun e mem => encoded e (left.some.subset mem)
    rw [urlEncode, jsonEncode, left.loop, entries]
    exact ⟨_, rfl⟩

/-- Keys that are the positions behind `url_encode` were the positions before. -/
lemma isList_keys (list : isList (keys (l.map (encodeEntry php))) = true) :
    l.map Prod.fst = (List.range l.length).map natText := by
  -- both lists of keys are decoded: the new keys to the old ones, and the positions to themselves
  have positions : (keys (l.map (encodeEntry php))).map urldecode =
      ((List.range l.length).map natText).map urldecode := by
    rw [isList, decide_eq_true_eq] at list
    rw [list]
    simp [keys]
  have decoded : (keys (l.map (encodeEntry php))).map urldecode = l.map Prod.fst := by
    rw [keys, List.map_map, List.map_map]
    apply List.map_congr_left
    intro e _
    exact (newKey_spec e.1).2.urldecode_eq
  have digits : ((List.range l.length).map natText).map urldecode =
      (List.range l.length).map natText := by
    rw [List.map_map]
    apply List.map_congr_left
    intro i _
    apply Decodes.urldecode_eq
    apply decodes_self
    intro c mem
    have digit := isDigit_natText i c mem
    constructor <;> (rintro rfl; cases digit)
  rw [← decoded, positions, digits]

/-- The text of a value that is encoded. -/
lemma exists_printed (valid : Valid v) (encoded : jsonEncode php n (urlEncode php v) = some x) :
    ∃ y json, Decodes x y ∧ Printed php n v y json := by
  induction valid generalizing n x with
  | @mk v _ distinct _ ih =>
    cases v with
    | str s =>
      rw [jsonEncode_str] at encoded
      cases encoded
      exact ⟨_, _, decodes_quoted (decodes_urlencode s), .str⟩
    | arr es =>
      obtain ⟨l, left⟩ : ∃ l, Left php es l := exists_left distinct.1
      rw [urlEncode, left.loop] at encoded
      cases n with
      | zero => cases encoded
      | succ n =>
        rw [jsonEncode] at encoded
        obtain ⟨xs, entries, rfl⟩ := Option.map_eq_some_iff.mp encoded
        choose! x inner using of_jsonEntries entries
        rw [jsonEntries_map inner] at entries
        cases entries
        choose! y json decodes printed using fun e mem => ih e (left.some.subset mem) (inner e mem)
        by_cases list : isList (keys (l.map (encodeEntry php))) = true
        · refine ⟨_, _, ?_, .list left (isList_keys list) printed⟩
          rw [if_pos list, List.map_map]
          exact decodes_array decodes
        · refine ⟨_, _, ?_, .object left printed⟩
          rw [if_neg list]
          exact decodes_object (fun e _ => decodes_quoted (newKey_spec e.1).2) decodes

end Encode

section Print

variable {php} {n : Nat} {v : Value} {y : List UInt8} {json : Json}

/-- Quotes around characters. -/
lemma utf8_quoted {s : List UInt8} (h : Utf8 s) : Utf8 (quoted s) := by
  have quote : Utf8 [34] := ⟨"\"", by decide⟩
  exact quote.append (h.append quote)

/-- The text of a value is in UTF-8. -/
lemma Printed.utf8 (printed : Printed php n v y json) (valid : Valid v) : Utf8 y := by
  have comma : Utf8 [44] := ⟨",", by decide⟩
  induction printed with
  | str =>
    obtain ⟨utf8, _, _⟩ := valid
    exact utf8_quoted utf8
  | list left _ _ ih =>
    obtain ⟨_, _, each⟩ := valid
    have bracket : Utf8 [91] := ⟨"[", by decide⟩
    have close : Utf8 [93] := ⟨"]", by decide⟩
    refine bracket.append ((Utf8.intercalate comma fun t mem => ?_).append close)
    obtain ⟨e, mem', rfl⟩ := List.mem_map.mp mem
    exact ih e mem' (each e (left.some.subset mem'))
  | object left _ ih =>
    obtain ⟨_, ⟨_, utf8⟩, each⟩ := valid
    have brace : Utf8 [123] := ⟨"\x7b", by decide⟩
    have colon : Utf8 [58] := ⟨":", by decide⟩
    have close : Utf8 [125] := ⟨"\x7d", by decide⟩
    refine brace.append ((Utf8.intercalate comma fun t mem => ?_).append close)
    rw [List.map_map] at mem
    obtain ⟨e, mem', rfl⟩ := List.mem_map.mp mem
    have there := left.some.subset mem'
    exact ((utf8_quoted (utf8 _ (mem_keys there))).append colon).append (ih e mem' (each e there))

/-- The text of a value with plain strings is that of the JSON value. -/
lemma Printed.spells (printed : Printed php n v y json) (plain : PlainValue v) : Spells y json := by
  induction printed with
  | str =>
    obtain ⟨plain, _, _⟩ := plain
    exact spells_quoted plain
  | list left _ _ ih =>
    obtain ⟨_, _, each⟩ := plain
    exact spells_array fun e mem => ih e mem (each e (left.some.subset mem))
  | object left _ ih =>
    obtain ⟨_, plain, each⟩ := plain
    exact spells_object (fun e mem => plain _ (mem_keys (left.some.subset mem)))
      fun e mem => ih e mem (each e (left.some.subset mem))

/-- The entries of what an array is as JSON. -/
lemma Printed.entries_arr {es : List (List UInt8 × Value)}
    (printed : Printed php (n + 1) (.arr es) y json) (plain : ∀ e ∈ es, Plain e.1) :
    node json = .map ∧ ∃ (l : List (List UInt8 × Value)) (f : List UInt8 × Value → Json),
      Left php es l ∧ entries json = l.map (fun e => (e.1, f e)) ∧
        ∀ e ∈ l, ∃ y, Printed php n e.2 y (f e) := by
  cases printed with
  | @list _ _ l y f left positions each =>
    exact ⟨rfl, l, f, left, indexed_map f positions, fun e mem => ⟨_, each e mem⟩⟩
  | @object _ _ l y f left each =>
    refine ⟨rfl, l, f, left, ?_, fun e mem => ⟨_, each e mem⟩⟩
    refine List.map_map.trans (List.map_congr_left fun e mem => ?_)
    exact congrArg (·, f e) (unescape_plain (plain e (left.some.subset mem)))

/-- Without a clash the JSON value holds what the value holds. -/
lemma Printed.same (printed : Printed php n v y json) (valid : Valid v) (plain : PlainValue v)
    (kept : Unclashed php v) : Everywhere (fun _ => True) List.Nodup json ∧ Same json v := by
  induction valid generalizing n y json with
  | @mk v _ distinct _ ih =>
    obtain ⟨plain, plainKeys, plainEach⟩ := plain
    obtain ⟨_, kept, keptEach⟩ := kept
    cases v with
    | str s =>
      cases printed
      refine ⟨⟨trivial, List.nodup_nil, fun e mem => absurd mem List.not_mem_nil⟩, fun path => ?_⟩
      cases path with
      | nil => exact congrArg (fun t => some (Node.str t)) (unescape_plain plain)
      | cons k path => rfl
    | arr es =>
      obtain ⟨n, rfl⟩ : ∃ m, n = m + 1 := by cases printed <;> exact ⟨_, rfl⟩
      obtain ⟨map, l, f, left, entries_eq, each⟩ :=
        printed.entries_arr fun e mem => plainKeys _ (mem_keys mem)
      have perm := (left.perm_iff distinct.1).mpr kept
      have inner : ∀ e ∈ l, Everywhere (fun _ => True) List.Nodup (f e) ∧ Same (f e) e.2 := by
        intro e mem
        obtain ⟨y, printed⟩ := each e mem
        have there := perm.mem_iff.mp mem
        exact ih e there printed (plainEach e there) (keptEach e there)
      refine ⟨⟨trivial, ?_, fun m mem => ?_⟩,
        same_of_entries map entries_eq perm left.distinct fun e mem => (inner e mem).2⟩
      · rw [entries_eq, keys, List.map_map]
        exact left.distinct
      · rw [entries_eq] at mem
        obtain ⟨e, mem', rfl⟩ := List.mem_map.mp mem
        exact (inner e mem').1

/-- A JSON value that holds what the value holds has as many entries in every array, so that no keys
clashed. -/
lemma Printed.unclashed (printed : Printed php n v y json) (valid : Valid v) (plain : PlainValue v)
    (nodup : Everywhere (fun _ => True) List.Nodup json) (same : Same json v) :
    Unclashed php v := by
  induction valid generalizing n y json with
  | @mk v _ distinct _ ih =>
    obtain ⟨_, plainKeys, plainEach⟩ := plain
    obtain ⟨_, nodup, nodupEach⟩ := nodup
    cases v with
    | str s => exact ⟨trivial, .nil, fun e mem => absurd mem List.not_mem_nil⟩
    | arr es =>
      obtain ⟨n, rfl⟩ : ∃ m, n = m + 1 := by cases printed <;> exact ⟨_, rfl⟩
      obtain ⟨_, l, f, left, entries_eq, each⟩ :=
        printed.entries_arr fun e mem => plainKeys _ (mem_keys mem)
      obtain ⟨_, same_entries, _⟩ := same.entries_perm nodup distinct.1
      have perm : l.Perm es := by
        refine left.some.perm_of_length_le ?_
        have lengths := same_entries.length_eq
        rw [entries_eq, List.length_map, List.length_map] at lengths
        exact lengths.ge
      refine ⟨trivial, (left.perm_iff distinct.1).mp perm, fun e mem => ?_⟩
      have there : (e.1, f e) ∈ entries json := by
        rw [entries_eq]
        exact List.mem_map.mpr ⟨e, perm.mem_iff.mpr mem, rfl⟩
      obtain ⟨y, printed⟩ := each e (perm.mem_iff.mpr mem)
      exact ih e mem printed (plainEach e mem) (nodupEach _ there)
        (same.entry nodup distinct.1 there mem)

/-- A value of which nothing is lost is not nested deeper than what is printed. -/
lemma Printed.nested (printed : Printed php n v y json) (valid : Valid v)
    (kept : Unclashed php v) : NestedTo n v := by
  induction printed with
  | str => exact .str
  | list left _ _ ih | object left _ ih =>
    obtain ⟨_, ⟨distinct, _⟩, each⟩ := valid
    obtain ⟨_, kept, keptEach⟩ := kept
    have perm := (left.perm_iff distinct).mpr kept
    exact .arr fun e mem => ih e (perm.mem_iff.mpr mem) (each e mem) (keptEach e mem)

end Print

section Marks

variable {php} {n : Nat} {v : Value} {y : List UInt8} {json : Json}

/-- Quotes are not among the marks. -/
lemma marks_quoted (s : List UInt8) : marks (quoted s) = marks s := by
  rw [quoted, marks_cons, marks_append]
  exact Nat.zero_add _

/-- Neither is the comma. -/
lemma marks_intercalate (xs : List (List UInt8)) :
    marks (List.intercalate [44] xs) = (xs.map marks).sum := by
  induction xs with
  | nil => rfl
  | cons x xs ih =>
    by_cases last : xs = []
    · subst last
      simp
    · have comma : marks [44] = 0 := rfl
      rw [List.intercalate_cons_of_ne_nil last, marks_append, marks_append, ih, comma]
      rfl

/-- All marks in the text of a value are those of its strings and keys. -/
lemma Printed.marks_le (printed : Printed php n v y json) : marks y ≤ v.marks := by
  have part {es l : List (List UInt8 × Value)} (sub : l.Subperm es) :
      (l.map fun e => marks e.1 + e.2.marks).sum ≤ (es.map fun e => marks e.1 + e.2.marks).sum := by
    obtain ⟨l', perm, sub⟩ := sub
    rw [← (perm.map _).sum_eq]
    exact (sub.map _).sum_le_sum fun _ _ => Nat.zero_le _
  induction printed with
  | str => rw [marks_quoted, Value.marks]
  | @list n es l y json left _ _ ih =>
    have bracket : marks [91] = 0 := rfl
    have close : marks [93] = 0 := rfl
    rw [arrayText, marks_cons, marks_append, marks_intercalate, bracket, close, Value.marks,
      List.map_map]
    have values : (l.map (marks ∘ y)).sum ≤ (l.map fun e => marks e.1 + e.2.marks).sum :=
      List.sum_le_sum fun e mem => (ih e mem).trans (Nat.le_add_left _ _)
    have := part left.some
    omega
  | @object n es l y json left _ ih =>
    have brace : marks [123] = 0 := rfl
    have close : marks [125] = 0 := rfl
    rw [objectText, marks_cons, marks_append, marks_intercalate, brace, close, Value.marks,
      List.map_map, List.map_map]
    refine le_trans ?_ (part left.some)
    rw [Nat.zero_add, Nat.add_zero]
    refine List.sum_le_sum fun e mem => ?_
    have colon : marks [58] = 0 := rfl
    have value := ih e mem
    simp only [Function.comp, marks_append, marks_quoted, colon]
    omega

/-- A JSON value that holds what the value holds has as many marks at least, and more if one of its
strings has an escape. -/
lemma plain_of_same (valid : Valid v) (spelled : json.Spelled)
    (nodup : Everywhere (fun _ => True) List.Nodup json) (same : Same json v) :
    v.marks ≤ json.marks ∧ (json.marks ≤ v.marks → PlainValue v) := by
  induction valid generalizing json with
  | @mk v _ distinct _ ih =>
    have root := same []
    rw [find, find, Option.some.injEq] at root
    cases v with
    | str s =>
      cases spelled with
      | @str s' spelled =>
        have meaning : unescape s' = s := Node.str.inj root
        obtain ⟨le, plain⟩ := marks_unescape spelled
        rw [meaning] at le plain
        rw [Value.marks, Json.marks]
        refine ⟨le, fun few => ⟨?_, fun k mem => absurd mem List.not_mem_nil,
          fun e mem => absurd mem List.not_mem_nil⟩⟩
        have plain' := plain few
        rw [unescape_plain plain'] at meaning
        exact meaning ▸ plain'
      | null | bool | num | arr | obj => cases root
    | arr es =>
      obtain ⟨_, nodup, nodupEach⟩ := nodup
      obtain ⟨spelledEach, le, plain⟩ := spelled.marks_entries root
      obtain ⟨f, perm, sames⟩ := same.entries_perm nodup distinct.1
      have there : ∀ e ∈ es, (e.1, f e) ∈ entries json := fun e mem =>
        perm.mem_iff.mpr (List.mem_map.mpr ⟨e, mem, rfl⟩)
      have inner : ∀ e ∈ es, e.2.marks ≤ (f e).marks ∧ ((f e).marks ≤ e.2.marks → PlainValue e.2) :=
        fun e mem => ih e mem (spelledEach _ (there e mem)) (nodupEach _ (there e mem))
          (sames e mem)
      have sums : ((entries json).map fun m => marks m.1 + m.2.marks).sum =
          (es.map fun e => marks e.1 + (f e).marks).sum := by
        rw [(perm.map _).sum_eq, List.map_map]
        rfl
      have each : ∀ e ∈ es, marks e.1 + e.2.marks ≤ marks e.1 + (f e).marks :=
        fun e mem => Nat.add_le_add_left (inner e mem).1 _
      have total := List.sum_le_sum each
      rw [Value.marks]
      refine ⟨by omega, fun few => ⟨trivial, ?_, fun e mem => (inner e mem).2 ?_⟩⟩
      · intro k mem
        obtain ⟨e, mem', rfl⟩ := List.mem_map.mp mem
        exact plain (by omega) _ (there e mem')
      · by_contra fewer
        have strict := List.sum_lt_sum _ _ each ⟨e, mem, by omega⟩
        omega

end Marks

/-- The text is in UTF-8, and it is JSON that holds what the value holds, exactly where no string
has a character that JSON escapes, no keys clash and the nesting is not too deep. -/
theorem encode_json_round_trip (v : PhpValue) :
    (RoundTrips php v.val ↔ Encodable php v.val ∧ NestedTo jsonDepth v.val) ∧
      (RoundTrips php v.val → Utf8 (encodeJson php v.val)) := by
  have text {x y} (encoded : jsonEncode php jsonDepth (urlEncode php v.val) = some x)
      (decodes : Decodes x y) : encodeJson php v.val = y := by
    rw [encodeJson, encoded, Option.getD_some, decodes.urldecode_eq]
  have there (round : RoundTrips php v.val) :
      ∃ x, jsonEncode php jsonDepth (urlEncode php v.val) = some x := by
    -- a text that is empty is not JSON
    obtain ⟨json, parses, _⟩ := round
    cases encoded : jsonEncode php jsonDepth (urlEncode php v.val) with
    | some x => exact ⟨x, rfl⟩
    | none =>
      rw [encodeJson, encoded] at parses
      exact absurd parses (not_parses rfl json)
  refine ⟨⟨fun round => ?_, ?_⟩, fun round => ?_⟩
  · obtain ⟨x, encoded⟩ := there round
    obtain ⟨y, json', decodes, printed⟩ := exists_printed v.valid encoded
    obtain ⟨json, parses, nodup, same⟩ := round
    rw [text encoded decodes] at parses
    obtain ⟨spelled, le⟩ := parses.spelled
    have plain := (plain_of_same v.valid spelled nodup same).2 (le.trans printed.marks_le)
    -- the text of plain strings is that of one JSON value only
    have unique := (printed.spells plain).parses.parse_eq
    rw [parses.parse_eq] at unique
    cases unique
    have kept := printed.unclashed v.valid plain nodup same
    refine ⟨?_, printed.nested v.valid kept⟩
    exact (plain.and kept).imp (fun _ => And.left) fun _ both => ⟨both.2, both.1⟩
  · rintro ⟨encodable, nested⟩
    obtain ⟨x, encoded⟩ : ∃ x, jsonEncode php jsonDepth (urlEncode php v.val) = some x :=
      exists_encoded v.valid nested
    obtain ⟨y, json, decodes, printed⟩ := exists_printed v.valid encoded
    have plain : PlainValue v.val := encodable.imp (fun _ => id) fun _ => And.right
    have kept : Unclashed php v.val := encodable.imp (fun _ _ => trivial) fun _ => And.left
    obtain ⟨nodup, same⟩ := printed.same v.valid plain kept
    refine ⟨json, ?_, nodup, same⟩
    rw [text encoded decodes]
    exact (printed.spells plain).parses
  · obtain ⟨x, encoded⟩ := there round
    obtain ⟨y, json, decodes, printed⟩ := exists_printed v.valid encoded
    rw [text encoded decodes]
    exact printed.utf8 v.valid

/-- The comparison of two strings of which one is not numeric. -/
def strict : Php where
  looseEq s t := s == t
  looseEq_refl s := beq_self_eq_true s
  looseEq_numeric _ _ same := .inl (eq_of_beq same)
  wide _ := none

section Flat

/-- An array of strings. -/
def flat (es : List (String × String)) : Value := .arr (es.map fun e => (text e.1, .str (text e.2)))

variable {es : List (String × String)}

/-- Its keys. -/
lemma keys_flat : keys (entries (flat es)) = es.map fun e => text e.1 := List.map_map

/-- A property of an array of strings is one of its keys and strings. -/
lemma everywhere_flat {P : Node → Prop} {Q : List (List UInt8) → Prop} (map : P .map)
    (keys : Q (es.map fun e => text e.1)) (empty : Q []) (each : ∀ e ∈ es, P (.str (text e.2))) :
    Everywhere P Q (flat es) := by
  refine ⟨map, by rwa [keys_flat], fun e mem => ?_⟩
  obtain ⟨e, mem', rfl⟩ := List.mem_map.mp mem
  exact ⟨each e mem', empty, nofun⟩

/-- An array of strings with distinct keys is a value. -/
lemma valid_flat (distinct : (es.map fun e => text e.1).Nodup) : Valid (flat es) := by
  refine everywhere_flat trivial ⟨distinct, fun k mem => ?_⟩ ⟨List.nodup_nil, nofun⟩ fun e _ =>
    ⟨e.2, rfl⟩
  obtain ⟨e, _, rfl⟩ := List.mem_map.mp mem
  exact ⟨e.1, rfl⟩

end Flat

/-- A list under a key with a blank, and a string that is not ASCII. -/
def nestedValue : Value :=
  .arr [(text "a b", flat [("0", "1+1"), ("1", "100%")]), (text "name", .str (text "命中"))]

/-- A property of the nested value, node by node. -/
lemma everywhere_nestedValue {P : Node → Prop} {Q : List (List UInt8) → Prop} (map : P .map)
    (keys : Q [text "a b", text "name"])
    (list : Everywhere P Q (flat [("0", "1+1"), ("1", "100%")])) (name : P (.str (text "命中")))
    (empty : Q []) : Everywhere P Q nestedValue := by
  have str : Everywhere P Q (Value.str (text "命中")) := ⟨name, empty, nofun⟩
  exact ⟨map, keys, List.forall_mem_cons.mpr ⟨list, List.forall_mem_singleton.mpr str⟩⟩

/-- The nested value is one. -/
lemma valid_nestedValue : Valid nestedValue := by
  have keys : ∀ k ∈ [text "a b", text "name"], Utf8 k :=
    List.forall_mem_cons.mpr ⟨⟨"a b", rfl⟩, List.forall_mem_singleton.mpr ⟨"name", rfl⟩⟩
  exact everywhere_nestedValue trivial ⟨by decide, keys⟩ (valid_flat (by decide)) ⟨"命中", rfl⟩
    ⟨List.nodup_nil, nofun⟩

/-- It can be encoded. -/
lemma encodable_nestedValue : Encodable strict nestedValue := by
  have empty : NoClash strict [] := List.Pairwise.nil
  have keys : NoClash strict [text "a b", text "name"] := by
    unfold NoClash
    decide
  have list : NoClash strict [text "0", text "1"] := by
    unfold NoClash
    decide
  refine everywhere_nestedValue trivial ⟨keys, by decide⟩ ?_ (show Plain (text "命中") by decide)
    ⟨empty, nofun⟩
  refine everywhere_flat trivial ⟨list, by decide⟩ ⟨empty, nofun⟩ ?_
  unfold OnString
  decide

/-- The list is an array of JSON, and its key is behind the other one. -/
theorem encode_json_round_trip_nested :
    RoundTrips strict nestedValue ∧
      encodeJson strict nestedValue =
        text "\x7b\"name\":\"命中\",\"a b\":[\"1+1\",\"100%\"]\x7d" := by
  have list : NestedTo 511 (flat [("0", "1+1"), ("1", "100%")]) :=
    .arr (List.forall_mem_cons.mpr ⟨.str, List.forall_mem_singleton.mpr .str⟩)
  have nested : NestedTo jsonDepth nestedValue :=
    .arr (List.forall_mem_cons.mpr ⟨list, List.forall_mem_singleton.mpr .str⟩)
  have round := (encode_json_round_trip strict ⟨nestedValue, valid_nestedValue⟩).1
  exact ⟨round.mpr ⟨encodable_nestedValue, nested⟩, by decide +kernel⟩

/-- Values that differ at a path are no round trip. -/
lemma not_roundTrips {v : Value} {json : Json} {path : List (List UInt8)}
    (parsed : ((lex (encodeJson php v)).bind fun ts => parse (2 * ts.length) .value ts) =
      some (json, []))
    (differ : find path json ≠ find path v) : ¬ RoundTrips php v := by
  rintro ⟨json', parses, _, same⟩
  rw [parses.parse_eq] at parsed
  cases parsed
  exact differ (same path)

/-- A quote in a string ends it too early, a backslash and the letter behind it come back as one
character, and of two keys the first is lost when it is encoded to the second. -/
theorem quote_backslash_key_lost :
    (Valid (flat [("a", "\"")]) ∧ ¬ ∃ json, Parses (encodeJson strict (flat [("a", "\"")])) json) ∧
      (Valid (flat [("a", "\\n")]) ∧ ¬ RoundTrips strict (flat [("a", "\\n")])) ∧
      (Valid (flat [("z y", "1"), ("z+y", "2")]) ∧
        ¬ RoundTrips strict (flat [("z y", "1"), ("z+y", "2")])) := by
  refine ⟨⟨valid_flat (by decide), ?_⟩, ⟨valid_flat (by decide), ?_⟩, valid_flat (by decide), ?_⟩
  · rintro ⟨json, parses⟩
    exact not_parses (by decide +kernel) json parses
  · have parsed :
      ((lex (encodeJson strict (flat [("a", "\\n")]))).bind fun ts =>
        parse (2 * ts.length) .value ts) =
      some (.obj [(text "a", .str (text "\\n"))], []) := rfl
    exact not_roundTrips strict parsed (show find [text "a"] _ ≠ _ by decide +kernel)
  · have parsed : ((lex (encodeJson strict (flat [("z y", "1"), ("z+y", "2")]))).bind fun ts =>
        parse (2 * ts.length) .value ts) = some (.obj [(text "z+y", .str (text "2"))], []) := rfl
    exact not_roundTrips strict parsed (show find [text "z y"] _ ≠ _ by decide +kernel)

end SweetClib.Bns.EncodeJson
