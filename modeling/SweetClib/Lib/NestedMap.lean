import SweetClib.Lib.OrderedMap

/-!
# Nested maps

A value is a string, or a map from strings to values, or something else. What a value holds is what
the paths of keys from it lead to (`find`), and two values, of the same or of different types, hold
the same (`Same`) when every path leads to the same in both. The order of the keys does not matter
to that; that there is no key twice is the property `Everywhere` of all maps in a value.
-/

namespace SweetClib.Lib

/-- What a path can lead to. -/
inductive Node where
  | str (s : List UInt8)
  | map
  | other
  deriving DecidableEq

/-- The values of a type as nested maps; what is not a map has no entries. -/
class NestedMap (α : Type) where
  node : α → Node
  entries : α → List (List UInt8 × α)

namespace NestedMap

variable {α β : Type} [NestedMap α] [NestedMap β]

/-- Where a path leads to. -/
def find : List (List UInt8) → α → Option Node
  | [], x => some (node x)
  | k :: path, x => ((entries x).lookup k).bind (find path)

/-- Every path leads to the same. -/
def Same (x : α) (y : β) : Prop := ∀ path, find path x = find path y

/-- The nodes of a value, and the keys of every map in it. -/
inductive Everywhere (P : Node → Prop) (Q : List (List UInt8) → Prop) : α → Prop where
  | mk {x} :
    P (node x) →
    Q (OrderedMap.keys (entries x)) →
    (∀ e ∈ entries x, Everywhere P Q e.2) →
    Everywhere P Q x

variable {P P' : Node → Prop} {Q Q' : List (List UInt8) → Prop} {x : α} {y : β}

lemma Everywhere.and (h : Everywhere P Q x) (h' : Everywhere P' Q' x) :
    Everywhere (fun n => P n ∧ P' n) (fun ks => Q ks ∧ Q' ks) x := by
  induction h with
  | mk p q _ ih =>
    obtain ⟨p', q', each⟩ := h'
    exact ⟨⟨p, p'⟩, ⟨q, q'⟩, fun e mem => ih e mem (each e mem)⟩

lemma Everywhere.imp (h : Everywhere P Q x) (node : ∀ n, P n → P' n) (keys : ∀ ks, Q ks → Q' ks) :
    Everywhere P' Q' x := by
  induction h with
  | mk p q _ ih => exact ⟨node _ p, keys _ q, ih⟩

/-- Maps with the same entries, in any order. -/
lemma same_of_entries {l : List (List UInt8 × β)} {f : List UInt8 × β → α} (nodes : node x = node y)
    (same : entries x = l.map fun e => (e.1, f e)) (perm : l.Perm (entries y))
    (distinct : (OrderedMap.keys l).Nodup) (each : ∀ e ∈ l, Same (f e) e.2) : Same x y := by
  intro path
  cases path with
  | nil => rw [find, find, nodes]
  | cons k path =>
    rw [find, find, same, OrderedMap.lookup_map, ← OrderedMap.lookup_perm distinct perm]
    cases found : l.lookup k with
    | none => rfl
    | some v =>
      have mem := (OrderedMap.lookup_eq_some_iff distinct).mp found
      exact each (k, v) mem path

/-- What two values that hold the same have under one key holds the same. -/
lemma Same.entry (same : Same x y) (distinct : (OrderedMap.keys (entries x)).Nodup)
    (distinct' : (OrderedMap.keys (entries y)).Nodup) {k : List UInt8} {a : α} {b : β}
    (mem : (k, a) ∈ entries x) (mem' : (k, b) ∈ entries y) : Same a b := by
  intro path
  have below := same (k :: path)
  rwa [find, find, (OrderedMap.lookup_eq_some_iff distinct).mpr mem,
    (OrderedMap.lookup_eq_some_iff distinct').mpr mem', Option.bind_some, Option.bind_some] at below

/-- Values that hold the same have the same keys. -/
lemma Same.mem_keys (same : Same x y) {k : List UInt8} {a : α} (mem : (k, a) ∈ entries x)
    (distinct : (OrderedMap.keys (entries x)).Nodup)
    (distinct' : (OrderedMap.keys (entries y)).Nodup) : ∃ b, (k, b) ∈ entries y := by
  have here := same [k]
  rw [find, find, (OrderedMap.lookup_eq_some_iff distinct).mpr mem, Option.bind_some, find] at here
  obtain ⟨b, found, _⟩ := Option.bind_eq_some_iff.mp here.symm
  exact ⟨b, (OrderedMap.lookup_eq_some_iff distinct').mp found⟩

lemma Same.symm (same : Same x y) : Same y x := fun path => (same path).symm

/-- Maps that hold the same have the same entries, in any order. -/
lemma Same.entries_perm (same : Same x y) (distinct : (OrderedMap.keys (entries x)).Nodup)
    (distinct' : (OrderedMap.keys (entries y)).Nodup) :
    ∃ f : List UInt8 × β → α, (entries x).Perm ((entries y).map fun e => (e.1, f e)) ∧
      ∀ e ∈ entries y, Same (f e) e.2 := by
  have : Nonempty α := ⟨x⟩
  choose! f there using fun (e : List UInt8 × β) (mem : e ∈ entries y) =>
    same.symm.mem_keys (k := e.1) mem distinct' distinct
  refine ⟨f, ?_, fun e mem => same.entry distinct distinct' (there e mem) mem⟩
  have nodup : (entries x).Nodup := .of_map Prod.fst distinct
  have nodup' : ((entries y).map fun e => (e.1, f e)).Nodup := by
    refine .of_map Prod.fst ?_
    rwa [List.map_map]
  rw [List.perm_ext_iff_of_nodup nodup nodup']
  rintro ⟨k, a⟩
  constructor
  · intro mem
    obtain ⟨b, mem'⟩ := same.mem_keys mem distinct distinct'
    have found := (OrderedMap.lookup_eq_some_iff distinct).mpr mem
    have found' := (OrderedMap.lookup_eq_some_iff distinct).mpr (there _ mem')
    cases found.symm.trans found'
    exact List.mem_map.mpr ⟨_, mem', rfl⟩
  · intro mem
    obtain ⟨e, mem', rest⟩ := List.mem_map.mp mem
    cases rest
    exact there e mem'

end NestedMap

end SweetClib.Lib
