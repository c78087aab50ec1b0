import Mathlib.Tactic

/-!
# Replicas of a log of updates

A log is a list of updates; the update at index `i` has the number `i + 1`. `replay` applies a log
to a state. A replica that has applied the first `n` updates reads the rest from a `Stream`:
updates with their indices, in the order of the log, possibly with some below `n`, and with all
from `n` on but those that were missed. If nothing from `n` on was missed, then the next update in
the stream that is not below `n` is the one at index `n` (`Stream.next`), and a replica that has
read its whole stream has applied the whole log (`Stream.done`).
-/

namespace SweetClib.Lib

variable {μ υ : Type*}

section Replay

variable (apply : μ → Nat → υ → μ) (init : μ)

/-- The state after the updates of a log, each applied with its number. -/
def replay (log : List υ) : μ :=
  (log.zipIdx 1).foldl (fun m e => apply m e.2 e.1) init

/-- One more update is applied to the others. -/
lemma replay_concat (log : List υ) (u : υ) :
    replay apply init (log ++ [u]) = apply (replay apply init log) (log.length + 1) u := by
  simp [replay, List.zipIdx_append, Nat.add_comm]

/-- The first updates and the next one. -/
lemma replay_take_succ {log : List υ} {n : Nat} {u : υ} (h : log[n]? = some u) :
    replay apply init (log.take (n + 1)) = apply (replay apply init (log.take n)) (n + 1) u := by
  obtain ⟨lt, _⟩ := List.getElem?_eq_some_iff.mp h
  rw [List.take_add_one, h, Option.toList_some, replay_concat, List.length_take,
    Nat.min_eq_left lt.le]

/-- What every update keeps holds after a log. -/
lemma replay_invariant (I : μ → Prop) (start : I init) {log : List υ}
    (step : ∀ m n u, u ∈ log → I m → I (apply m n u)) : I (replay apply init log) := by
  induction log using List.reverseRecOn with
  | nil => exact start
  | append_singleton log u ih =>
    rw [replay_concat]
    refine step _ _ u (by simp) (ih fun m n v mem => step m n v (by simp [mem]))

end Replay

/-- The updates a replica that has applied the first `n` updates of a log is still to read. -/
structure Stream (log : List υ) (missed : Nat → Prop) (n : Nat) (es : List (υ × Nat)) : Prop where
  sorted : es.Pairwise fun e e' => e.2 < e'.2
  entry : ∀ e ∈ es, log[e.2]? = some e.1
  covers : ∀ i u, n ≤ i → log[i]? = some u → missed i ∨ (u, i) ∈ es

variable {log : List υ} {missed missed' : Nat → Prop} {n i : Nat} {u : υ} {es : List (υ × Nat)}

/-- An empty stream is one of any log. -/
lemma Stream.nil : Stream ([] : List υ) missed n [] :=
  ⟨.nil, nofun, nofun⟩

/-- The updates of a log with one more. -/
lemma getElem?_concat {v : υ} (h : (log ++ [v])[i]? = some u) :
    log[i]? = some u ∨ i = log.length ∧ u = v := by
  obtain lt | ge := Nat.lt_or_ge i log.length
  · exact .inl (by rwa [List.getElem?_append_left lt] at h)
  · rw [List.getElem?_append_right ge] at h
    obtain ⟨lt, e⟩ := List.getElem?_eq_some_iff.mp h
    simp only [List.length_singleton, Nat.lt_one_iff] at lt
    simp only [lt, List.getElem_cons_zero] at e
    exact .inr ⟨by omega, e.symm⟩

/-- The stream stays one when the log grows and the new update was missed. -/
lemma Stream.miss (st : Stream log missed n es) (mono : ∀ i, missed i → missed' i)
    (last : missed' log.length) : Stream (log ++ [u]) missed' n es := by
  refine ⟨st.sorted, fun e mem => ?_, fun i v le h => ?_⟩
  · have h := st.entry e mem
    rwa [List.getElem?_append_left (List.getElem?_eq_some_iff.mp h).1]
  · obtain h | ⟨rfl, rfl⟩ := getElem?_concat h
    · exact (st.covers i v le h).imp_left (mono i)
    · exact .inl last

/-- The new update of a log is delivered. -/
lemma Stream.deliver (st : Stream log missed n es) (u : υ) :
    Stream (log ++ [u]) missed n (es ++ [(u, log.length)]) := by
  have short : ∀ e ∈ es, e.2 < log.length :=
    fun e mem => (List.getElem?_eq_some_iff.mp (st.entry e mem)).1
  refine ⟨?_, fun e mem => ?_, fun i v le h => ?_⟩
  · rw [List.pairwise_append]
    refine ⟨st.sorted, List.pairwise_singleton _ _, fun e mem e' mem' => ?_⟩
    rw [List.mem_singleton.mp mem']
    exact short e mem
  · obtain mem | mem := List.mem_append.mp mem
    · rw [List.getElem?_append_left (short e mem)]
      exact st.entry e mem
    · rw [List.mem_singleton.mp mem]
      simp
  · obtain h | ⟨rfl, rfl⟩ := getElem?_concat h
    · exact (st.covers i v le h).imp_right (List.mem_append_left _)
    · exact .inr (by simp)

/-- A replica that is further on. -/
lemma Stream.raise {n' : Nat} (st : Stream log missed n es) (le : n ≤ n') :
    Stream log missed n' es :=
  ⟨st.sorted, st.entry, fun i u le' => st.covers i u (le.trans le')⟩

/-- The first update of a stream is read. -/
lemma Stream.read (st : Stream log missed n ((u, i) :: es)) :
    Stream log missed (max n (i + 1)) es := by
  obtain ⟨_, sorted⟩ := List.pairwise_cons.mp st.sorted
  refine ⟨sorted, fun e mem => st.entry e (List.mem_cons_of_mem _ mem), fun j v le h => ?_⟩
  obtain ms | mem := st.covers j v (le_of_max_le_left le) h
  · exact .inl ms
  · obtain e | mem := List.mem_cons.mp mem
    · cases e
      exact absurd (le_of_max_le_right le) (Nat.lt_irrefl _)
    · exact .inr mem

/-- If nothing from `n` on was missed, the first update not below `n` is the one at `n`. -/
lemma Stream.next (st : Stream log missed n ((u, i) :: es)) (le : n ≤ i)
    (low : ∀ j, missed j → j < n) : i = n := by
  by_contra ne
  obtain ⟨lt, _⟩ := List.getElem?_eq_some_iff.mp (st.entry _ List.mem_cons_self)
  have ln : n < log.length := by omega
  -- the update at `n` would be in the stream, but the stream starts behind it
  obtain ms | mem := st.covers n log[n] le_rfl (List.getElem?_eq_getElem ln)
  · exact absurd (low n ms) (Nat.lt_irrefl _)
  · obtain e | mem := List.mem_cons.mp mem
    · cases e
      exact ne rfl
    · have := (List.pairwise_cons.mp st.sorted).1 _ mem
      omega

/-- If nothing from `n` on was missed, a replica that has read all has applied the whole log. -/
lemma Stream.done (st : Stream log missed n []) (low : ∀ j, missed j → j < n) : log.length ≤ n := by
  by_contra gt
  have lt : n < log.length := by omega
  obtain ms | mem := st.covers n log[n] le_rfl (List.getElem?_eq_getElem lt)
  · exact absurd (low n ms) (Nat.lt_irrefl _)
  · cases mem

end SweetClib.Lib
