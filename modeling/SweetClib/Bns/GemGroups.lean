import SweetClib.Bns.CollectGem

/-!
# The groups of gems

The first half of `collect_gem.php`: the documents are put into groups by their name and category,
and the first document of each group is kept (`realRes`). A document without a category is not
looked at. For each group the documents with its name and category are then asked for once more,
and collected (`collectGem`).

What the database answers is a parameter: the documents, in the order in which the first query
returns them, and the answer to the query for a name and a category (`find`). Of the latter it is
assumed that it holds each document with that name and category once, in any order (`Answered`).

Groups are told apart with `==`, which is a parameter as in `CollectGem`, but the query compares
names and categories as they are. A document whose name and category are `==` to those of a group
without being the same is in no group (`gem_groups`).
-/

namespace SweetClib.Bns.CollectGem
open SweetClib.Lib

variable {Id V N : Type}

/-- A document with its name, and its category if it is set. -/
structure Gem (Id V N : Type) where
  doc : Doc Id V
  name : N
  category : Option N

/-- What the query looks for. -/
def Gem.key (gem : Gem Id V N) : N × Option N := (gem.name, gem.category)

section Model

variable (looseEq : N → N → Bool)

/-- `$value['name'] == $doc['name'] && $value['game_category'] == $doc['game_category']`, where
both categories are set. -/
def Gem.same (value doc : Gem Id V N) : Bool :=
  looseEq value.name doc.name &&
    match value.category, doc.category with
    | some c, some c' => looseEq c c'
    | _, _ => false

/-- A round of the first loop; the inner loop sets `$has_push` where a group is the same. -/
def pushGem (realRes : List (Gem Id V N)) (doc : Gem Id V N) : List (Gem Id V N) :=
  if doc.category.isSome then
    let hasPush := realRes.any fun value => value.same looseEq doc
    if !hasPush then realRes ++ [doc] else realRes
  else realRes

/-- The first document of each group (`$real_res`). -/
def realRes (docs : List (Gem Id V N)) : List (Gem Id V N) := docs.foldl (pushGem looseEq) []

/-- The groups, each with what is collected for it; `find` is the answer of the database to
`find(array("name"=>$value['name'],"game_category"=>$value['game_category']))`. -/
def collectGem (php : Php V) (find : N × Option N → List (Gem Id V N)) (docs : List (Gem Id V N)) :
    List (Gem Id V N × Group Id) :=
  (realRes looseEq docs).map fun value => (value, collect php ((find value.key).map Gem.doc))

/-- Every query is answered with the documents that have the name and the category asked for, each
of them once, in any order. -/
def Answered [DecidableEq N] (docs : List (Gem Id V N)) (find : N × Option N → List (Gem Id V N)) :
    Prop :=
  ∀ key, (find key).Perm (docs.filter fun doc => doc.key = key)

end Model

section Groups

variable {looseEq : N → N → Bool} {docs : List (Gem Id V N)}

lemma realRes_append (docs : List (Gem Id V N)) (doc : Gem Id V N) :
    realRes looseEq (docs ++ [doc]) = pushGem looseEq (realRes looseEq docs) doc :=
  List.foldl_append

/-- A document is pushed where it has a category and no group is the same. -/
lemma pushGem_cases (looseEq : N → N → Bool) (res : List (Gem Id V N)) (doc : Gem Id V N) :
    (doc.category.isSome ∧ (∀ value ∈ res, value.same looseEq doc = false) ∧
      pushGem looseEq res doc = res ++ [doc]) ∨
    ((doc.category.isSome → ∃ value ∈ res, value.same looseEq doc = true) ∧
      pushGem looseEq res doc = res) := by
  cases set : doc.category.isSome with
  | false => exact .inr ⟨fun h => absurd h Bool.false_ne_true, by rw [pushGem, set]; rfl⟩
  | true =>
    cases hasPush : res.any fun value => value.same looseEq doc with
    | false =>
      refine .inl ⟨rfl, fun value mem => ?_, by rw [pushGem, set]; simp only [hasPush]; rfl⟩
      exact Bool.eq_false_of_not_eq_true (List.any_eq_false.mp hasPush value mem)
    | true =>
      exact .inr
        ⟨fun _ => List.any_eq_true.mp hasPush, by rw [pushGem, set]; simp only [hasPush]; rfl⟩

lemma realRes_sublist (docs : List (Gem Id V N)) : (realRes looseEq docs).Sublist docs := by
  induction docs using List.reverseRecOn with
  | nil => exact List.Sublist.refl _
  | append_singleton docs doc ih =>
    rw [realRes_append]
    obtain ⟨-, -, e⟩ | ⟨-, e⟩ := pushGem_cases looseEq (realRes looseEq docs) doc <;> rw [e]
    · exact ih.append (List.Sublist.refl _)
    · exact ih.trans (List.sublist_append_left ..)

lemma realRes_set {value : Gem Id V N} (mem : value ∈ realRes looseEq docs) :
    value.category.isSome := by
  induction docs using List.reverseRecOn with
  | nil => exact absurd mem List.not_mem_nil
  | append_singleton docs doc ih =>
    rw [realRes_append] at mem
    obtain ⟨set, -, e⟩ | ⟨-, e⟩ :=
      pushGem_cases looseEq (realRes looseEq docs) doc <;> rw [e] at mem
    · obtain mem | mem := List.mem_append.mp mem
      · exact ih mem
      · exact List.mem_singleton.mp mem ▸ set
    · exact ih mem

/-- No group is the same as one before. -/
lemma realRes_pairwise (docs : List (Gem Id V N)) :
    (realRes looseEq docs).Pairwise fun value doc => value.same looseEq doc = false := by
  induction docs using List.reverseRecOn with
  | nil => exact List.Pairwise.nil
  | append_singleton docs doc ih =>
    rw [realRes_append]
    obtain ⟨-, new, e⟩ | ⟨-, e⟩ := pushGem_cases looseEq (realRes looseEq docs) doc <;> rw [e]
    · refine List.pairwise_append.mpr
        ⟨ih, List.pairwise_singleton .., fun value mem doc' mem' => ?_⟩
      exact List.mem_singleton.mp mem' ▸ new value mem
    · exact ih

lemma Gem.same_self (refl : ∀ a, looseEq a a = true) {doc : Gem Id V N}
    (set : doc.category.isSome) : doc.same looseEq doc = true := by
  obtain ⟨c, e⟩ := Option.isSome_iff_exists.mp set
  rw [Gem.same, refl, e]
  exact refl c

lemma Gem.same_comm (symm : ∀ a b, looseEq a b = looseEq b a) (value doc : Gem Id V N) :
    value.same looseEq doc = doc.same looseEq value := by
  rw [Gem.same, Gem.same, symm value.name]
  cases value.category with
  | none => cases doc.category <;> rfl
  | some c =>
    cases doc.category with
    | none => rfl
    | some c' => exact congrArg _ (symm c c')

/-- Only the name and the category of the second document count. -/
lemma Gem.same_of_key {value doc doc' : Gem Id V N} (key : doc.key = doc'.key) :
    value.same looseEq doc = value.same looseEq doc' := by
  obtain ⟨name, category⟩ := Prod.mk.inj key
  rw [Gem.same, Gem.same, name, category]

/-- Every document with a category has a group that is the same. -/
lemma realRes_covers (refl : ∀ a, looseEq a a = true) {doc : Gem Id V N} (mem : doc ∈ docs)
    (set : doc.category.isSome) :
    ∃ value ∈ realRes looseEq docs, value.same looseEq doc = true := by
  induction docs using List.reverseRecOn with
  | nil => exact absurd mem List.not_mem_nil
  | append_singleton docs last ih =>
    rw [realRes_append]
    obtain mem | mem := List.mem_append.mp mem
    · obtain ⟨value, mem, same⟩ := ih mem
      refine ⟨value, ?_, same⟩
      obtain ⟨-, -, e⟩ | ⟨-, e⟩ := pushGem_cases looseEq (realRes looseEq docs) last <;> rw [e]
      · exact List.mem_append_left _ mem
      · exact mem
    · obtain rfl := List.mem_singleton.mp mem
      obtain ⟨-, -, e⟩ | ⟨has, e⟩ := pushGem_cases looseEq (realRes looseEq docs) doc <;> rw [e]
      · exact ⟨doc, List.mem_append_right _ mem, Gem.same_self refl set⟩
      · exact has set

/-- Two groups that are the same are one. -/
lemma realRes_inj (symm : ∀ a b, looseEq a b = looseEq b a) {value value' : Gem Id V N}
    (mem : value ∈ realRes looseEq docs) (mem' : value' ∈ realRes looseEq docs)
    (same : value.same looseEq value' = true) : value = value' := by
  by_contra ne
  have : Std.Symm fun value doc : Gem Id V N => value.same looseEq doc = false :=
    ⟨fun value doc apart => by rwa [Gem.same_comm symm]⟩
  exact Bool.false_ne_true ((realRes_pairwise docs).forall mem mem' ne ▸ same)

/-- A document is found for a group exactly if each group that is the same has its name and
category. -/
lemma key_mem_realRes (refl : ∀ a, looseEq a a = true) (symm : ∀ a b, looseEq a b = looseEq b a)
    {doc : Gem Id V N} (mem : doc ∈ docs) :
    doc.key ∈ (realRes looseEq docs).map Gem.key ↔ doc.category.isSome ∧
      ∀ value ∈ realRes looseEq docs, value.same looseEq doc = true → value.key = doc.key := by
  constructor
  · intro has
    obtain ⟨value, mem, key⟩ := List.mem_map.mp has
    have category : value.category = doc.category := congrArg Prod.snd key
    refine ⟨category ▸ realRes_set mem, fun value' mem' same => ?_⟩
    rw [realRes_inj symm mem' mem (Gem.same_of_key key ▸ same), key]
  · rintro ⟨set, keys⟩
    obtain ⟨value, mem, same⟩ := realRes_covers refl mem set
    exact List.mem_map.mpr ⟨value, mem, keys value mem same⟩

lemma realRes_nodup (refl : ∀ a, looseEq a a = true) (docs : List (Gem Id V N)) :
    ((realRes looseEq docs).map Gem.key).Nodup := by
  refine List.pairwise_map.mpr
    ((realRes_pairwise docs).imp_of_mem fun {value doc} mem _ apart key => ?_)
  have same := Gem.same_self refl (realRes_set mem)
  rw [Gem.same_of_key key, apart] at same
  exact Bool.false_ne_true same

/-- The answers for different keys hold the documents with one of these keys. -/
lemma flatMap_find_perm [DecidableEq N] {find : N × Option N → List (Gem Id V N)}
    (answered : Answered docs find) {keys : List (N × Option N)} (nodup : keys.Nodup) :
    (keys.flatMap find).Perm (docs.filter fun doc => doc.key ∈ keys) := by
  induction keys with
  | nil => simp
  | cons key keys ih =>
    obtain ⟨new, nodup⟩ := List.nodup_cons.mp nodup
    let among := docs.filter fun doc => doc.key ∈ key :: keys
    have first : among.filter (fun doc => doc.key = key) = docs.filter fun doc =>
        doc.key = key := by
      rw [List.filter_filter]
      refine List.filter_congr fun doc _ => ?_
      by_cases same : doc.key = key <;> simp [same]
    have rest : among.filter (fun doc => !decide (doc.key = key)) =
        docs.filter fun doc => doc.key ∈ keys := by
      rw [List.filter_filter]
      refine List.filter_congr fun doc _ => ?_
      by_cases same : doc.key = key
      · simpa [same] using new
      · simp [same]
    have split := List.filter_append_perm (fun doc => decide (doc.key = key)) among
    rw [first, rest] at split
    exact ((answered key).append (ih nodup)).trans split

/-- The document has a category, and its name and category are those of each group that is the
same. -/
def InGroup [DecidableEq N] (looseEq : N → N → Bool) (docs : List (Gem Id V N)) (doc : Gem Id V N) :
    Prop :=
  doc.category.isSome ∧ ∀ value ∈ realRes looseEq docs, value.same looseEq doc = true →
    value.key = doc.key

instance [DecidableEq N] (doc : Gem Id V N) : Decidable (InGroup looseEq docs doc) :=
  inferInstanceAs (Decidable (_ ∧ _))

/-- The ids that are collected are those of the documents that are found. -/
lemma collectGem_realId (php : Php V) (find : N × Option N → List (Gem Id V N))
    (docs : List (Gem Id V N)) :
    (collectGem looseEq php find docs).flatMap (fun group => group.2.realId) =
      (((realRes looseEq docs).map Gem.key).flatMap find).map fun doc => doc.doc.id := by
  rw [collectGem, List.flatMap_map, List.flatMap_map, List.map_flatMap]
  refine List.flatMap_congr fun value _ => ?_
  show ((find value.key).map Gem.doc).map Doc.id = _
  rw [List.map_map]
  rfl

/-- The groups are first documents of which no two are the same, and every document with a category
is the same as one. If the queries are answered, a document is collected exactly once if its name
and category are those of its group, and never otherwise; where `==` is the equality on the names
and categories, all documents with a category are collected once. -/
theorem gem_groups [DecidableEq N] (looseEq : N → N → Bool) (php : Php V)
    (refl : ∀ a, looseEq a a = true) (symm : ∀ a b, looseEq a b = looseEq b a)
    (docs : List (Gem Id V N)) (find : N × Option N → List (Gem Id V N))
    (answered : Answered docs find) :
    let groups := collectGem looseEq php find docs
    let ids := groups.flatMap fun group => group.2.realId
    (groups.map Prod.fst).Sublist docs ∧
    (groups.map Prod.fst).Pairwise (fun value doc => value.same looseEq doc = false) ∧
    (∀ doc ∈ docs, doc.category.isSome → ∃ group ∈ groups, group.1.same looseEq doc = true) ∧
    ids.Perm ((docs.filter fun doc => InGroup looseEq docs doc).map fun doc => doc.doc.id) ∧
    ((∀ value ∈ docs, ∀ doc ∈ docs, value.same looseEq doc = true → value.key = doc.key) →
      ids.Perm ((docs.filter fun doc => doc.category.isSome).map fun doc => doc.doc.id)) := by
  intro groups ids
  have fst : groups.map Prod.fst = realRes looseEq docs := by
    show (List.map _ _).map _ = _
    rw [List.map_map]
    exact List.map_id _
  have collected :
      ids.Perm ((docs.filter fun doc => InGroup looseEq docs doc).map fun doc => doc.doc.id) := by
    show List.Perm ((collectGem looseEq php find docs).flatMap _) _
    rw [collectGem_realId]
    refine List.Perm.map _
      ((flatMap_find_perm answered (realRes_nodup refl docs)).trans (.of_eq ?_))
    exact List.filter_congr fun doc mem => decide_eq_decide.mpr (key_mem_realRes refl symm mem)
  refine ⟨fst ▸ realRes_sublist docs, fst ▸ realRes_pairwise docs, fun doc mem set => ?_, collected,
    fun faithful => collected.trans (.of_eq ?_)⟩
  · obtain ⟨value, mem, same⟩ := realRes_covers refl mem set
    obtain ⟨group, has, rfl⟩ := List.mem_map.mp (fst ▸ mem)
    exact ⟨group, has, same⟩
  · refine congrArg _ (List.filter_congr fun doc mem => ?_)
    rw [Bool.eq_iff_iff, decide_eq_true_iff]
    exact and_iff_left fun value mem' => faithful value ((realRes_sublist docs).subset mem') doc mem

/-- Names of digits, which `==` compares as numbers: the document with the name `010` is in the
group of `10`, and lost. The query is answered with the last document first. -/
theorem gem_groups_lost :
    let looseEq (a b : List Nat) : Bool := Nat.ofDigits 10 a.reverse == Nat.ofDigits 10 b.reverse
    let php : Php Nat := ⟨(· == 0), (· == ·), fun _ => []⟩
    let gem (id : Nat) (name : List Nat) : Gem Nat Nat (List Nat) :=
      ⟨⟨id, fun _ => 1⟩, name, some [5]⟩
    let docs := [gem 0 [1, 0], gem 1 [0, 1, 0], gem 2 [1, 0]]
    let find (key : List Nat × Option (List Nat)) := (docs.filter fun doc => doc.key = key).reverse
    Answered docs find ∧
    (∃ group ∈ collectGem looseEq php find docs, group.1.same looseEq (gem 1 [0, 1, 0]) = true) ∧
    ((collectGem looseEq php find docs).flatMap fun group => group.2.realId).Perm [0, 2] := by
  intro looseEq php gem docs find
  have answered : Answered docs find := fun key => List.reverse_perm _
  obtain ⟨-, -, covers, ids, -⟩ := gem_groups looseEq php (fun a => beq_self_eq_true _)
    (fun a b => Bool.beq_comm) docs find answered
  exact ⟨answered, covers (gem 1 [0, 1, 0]) (by simp [docs]) rfl,
    ids.trans (.of_eq (by decide +kernel))⟩

end Groups

end SweetClib.Bns.CollectGem
