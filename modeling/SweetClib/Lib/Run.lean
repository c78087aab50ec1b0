import Mathlib.Tactic

/-!
# Runs of labelled transition systems

A labelled transition system over states `σ` and labels `α` is a relation `R s a s'`. `Run R s₀ tr
s` says that the labels `tr` lead from `s₀` to `s`; the history `tr` is kept newest label first, so
that the last thing that happened is its head. A program whose operations answer an input is turned
into such a relation by `Answers`, with the pair of input and answer as the label; the operation is
partial, and `none` stands for a fault of the program.

The rules by which the developments reason about whole runs:
* `Run.invariant`: a state predicate that every step keeps holds in every state reached.
* `Run.invariant_under`: the same for a predicate that steps keep under an invariant.
* `Run.history`: the same for a predicate of the history and the state together.
* `Run.simulate`: a step-by-step match of one system by another lifts to whole runs.
* `Run.conserve`: what every step balances, a whole run balances.
* `sum_update`: the balance of a sum over components, one of which moves.
* `Run.of_inputs`: an operation that never faults under an invariant serves every list of inputs.
* `exec_run`, `serve_run`: what the interpreters `exec` and `serve` compute from given labels or
  inputs is a run.
-/

namespace SweetClib.Lib

variable {σ τ α ι ο : Type*}

/-- Runs from `s₀`, with the labels taken so far, newest first. -/
inductive Run (R : σ → α → σ → Prop) (s₀ : σ) : List α → σ → Prop where
  | nil :
    Run R s₀ [] s₀
  | cons {tr a s s'} :
    Run R s₀ tr s →
    R s a s' →
    Run R s₀ (a :: tr) s'

/-- An invariant of the history and the state holds after every run. -/
lemma Run.history {R : σ → α → σ → Prop} {s₀ tr s} (I : List α → σ → Prop)
    (run : Run R s₀ tr s) (init : I [] s₀)
    (step : ∀ tr s a s', I tr s → R s a s' → I (a :: tr) s') : I tr s := by
  induction run with
  | nil => exact init
  | cons _ st ih => exact step _ _ _ _ ih st

/-- A state invariant holds after every run. -/
lemma Run.invariant {R : σ → α → σ → Prop} {s₀ tr s} (I : σ → Prop)
    (run : Run R s₀ tr s) (init : I s₀)
    (step : ∀ s a s', I s → R s a s' → I s') : I s :=
  run.history (fun _ s => I s) init (fun _ _ _ _ => step _ _ _)

/-- A state predicate that steps keep in the states of an invariant holds after every run. -/
lemma Run.invariant_under {R : σ → α → σ → Prop} {s₀ tr s} (I J : σ → Prop) (run : Run R s₀ tr s)
    (initI : I s₀) (stepI : ∀ s a s', I s → R s a s' → I s') (initJ : J s₀)
    (stepJ : ∀ s a s', I s → J s → R s a s' → J s') : J s := by
  suffices both : I s ∧ J s from both.2
  refine run.invariant (fun s => I s ∧ J s) ⟨initI, initJ⟩ ?_
  rintro s a s' ⟨inv, before⟩ st
  exact ⟨stepI s a s' inv st, stepJ s a s' inv before st⟩

/-- A state predicate kept by the steps with the labels of a run holds after it. -/
lemma Run.invariant_on {R : σ → α → σ → Prop} {s₀ tr s} (I : σ → Prop) (L : α → Prop)
    (run : Run R s₀ tr s) (labels : ∀ a ∈ tr, L a) (init : I s₀)
    (step : ∀ s a s', L a → I s → R s a s' → I s') : I s := by
  induction run with
  | nil => exact init
  | cons _ st ih =>
    have before := ih fun a mem => labels a (List.mem_cons_of_mem _ mem)
    exact step _ _ _ (labels _ List.mem_cons_self) before st

/-- If every step that brings in `gain` and hands out `loss` accounts for what is held, so does the
whole run. -/
lemma Run.conserve {M : Type*} [AddCommMonoid M] {R : σ → α → σ → Prop} {s₀ tr s} (H : σ → M → Prop)
    (gain loss : α → M) (run : Run R s₀ tr s) (init : H s₀ 0)
    (step : ∀ s a s' m, H s m → R s a s' → ∃ m', H s' m' ∧ m' + loss a = m + gain a) :
    ∃ m, H s m ∧ m + (tr.map loss).sum = (tr.map gain).sum := by
  induction run with
  | nil => exact ⟨0, init, zero_add 0⟩
  | @cons tr a s s' _ st ih =>
    obtain ⟨m, held, total⟩ := ih
    obtain ⟨m', held', one⟩ := step s a s' m held st
    refine ⟨m', held', ?_⟩
    calc m' + ((a :: tr).map loss).sum = (m' + loss a) + (tr.map loss).sum := by
          rw [List.map_cons, List.sum_cons, add_assoc]
      _ = gain a + (m + (tr.map loss).sum) := by rw [one, add_comm m, add_assoc]
      _ = ((a :: tr).map gain).sum := by rw [total, List.map_cons, List.sum_cons]

/-- Where one of finitely many components moves, a sum over all of them changes by what it held. -/
lemma sum_update {κ β M : Type*} [Fintype κ] [DecidableEq κ] [AddCommMonoid M] (f : β → M)
    (g : κ → β) (i : κ) (b : β) :
    ∑ j, f (Function.update g i b j) + f (g i) = ∑ j, f (g j) + f b := by
  have moved : f ∘ Function.update g i b = Function.update (f ∘ g) i (f b) :=
    Function.comp_update ..
  have rest : ∑ j, f (Function.update g i b j) = f b + ∑ j ∈ Finset.univ \ {i}, f (g j) := by
    have sum := Finset.sum_update_of_mem (Finset.mem_univ i) (f ∘ g) (f b)
    rwa [← moved] at sum
  rw [rest, Finset.sum_eq_sum_sdiff_singleton_add (Finset.mem_univ i) fun j => f (g j)]
  abel

lemma Run.trans {R : σ → α → σ → Prop} {s₀ tr s tr' s'} (run : Run R s₀ tr s)
    (run' : Run R s tr' s') : Run R s₀ (tr' ++ tr) s' := by
  induction run' with
  | nil => exact run
  | cons _ st ih => exact .cons ih st

lemma Run.single {R : σ → α → σ → Prop} {s a s'} (st : R s a s') : Run R s [a] s' :=
  .cons .nil st

/-- A run is one of another system that has the steps with its labels. -/
lemma Run.mono {R S : σ → α → σ → Prop} {s₀ tr s} (run : Run R s₀ tr s)
    (step : ∀ s, ∀ a ∈ tr, ∀ s', R s a s' → S s a s') : Run S s₀ tr s := by
  induction run with
  | nil => exact .nil
  | cons _ st ih =>
    have before := ih fun s a mem => step s a (List.mem_cons_of_mem _ mem)
    exact .cons before (step _ _ List.mem_cons_self _ st)

/-- Forward simulation: `Q` relates the states, and every step of `R` from related states is matched
by a step of `S` with the same label. -/
lemma Run.simulate {R : σ → α → σ → Prop} {S : τ → α → τ → Prop} {s₀ tr s t₀}
    (Q : σ → τ → Prop) (run : Run R s₀ tr s) (init : Q s₀ t₀)
    (step : ∀ s a s' t, Q s t → R s a s' → ∃ t', S t a t' ∧ Q s' t') :
    ∃ t, Run S t₀ tr t ∧ Q s t := by
  induction run with
  | nil => exact ⟨t₀, .nil, init⟩
  | cons _ st ih =>
    obtain ⟨t, runT, q⟩ := ih
    obtain ⟨t', stT, q'⟩ := step _ _ _ _ q st
    exact ⟨t', .cons runT stT, q'⟩

/-- The transition relation of a partial operation that answers an input. -/
def Answers (step : σ → ι → Option (ο × σ)) : σ → ι × ο → σ → Prop :=
  fun s a s' => step s a.1 = some (a.2, s')

/-- The inputs of a history, oldest first. -/
def inputs (tr : List (ι × ο)) : List ι :=
  (tr.map Prod.fst).reverse

/-- An operation that does not fault on the inputs `ok` in any state satisfying an invariant of it
serves every list of such inputs. -/
lemma Run.of_inputs (step : σ → ι → Option (ο × σ)) (s₀ : σ) (ok : ι → Prop) (I : σ → Prop)
    (init : I s₀) (total : ∀ s i, I s → ok i → ∃ o s', step s i = some (o, s') ∧ I s')
    (is : List ι) (all : ∀ i ∈ is, ok i) :
    ∃ tr s, Run (Answers step) s₀ tr s ∧ inputs tr = is := by
  suffices main : ∃ tr s, Run (Answers step) s₀ tr s ∧ inputs tr = is ∧ I s by
    obtain ⟨tr, s, run, e, _⟩ := main
    exact ⟨tr, s, run, e⟩
  induction is using List.reverseRecOn with
  | nil => exact ⟨[], s₀, .nil, rfl, init⟩
  | append_singleton is i ih =>
    obtain ⟨tr, s, run, e, inv⟩ := ih fun j hj => all j (by simp [hj])
    obtain ⟨o, s', st, inv'⟩ := total s i inv (all i (by simp))
    refine ⟨(i, o) :: tr, s', .cons run st, ?_, inv'⟩
    rw [inputs, List.map_cons, List.reverse_cons, ← inputs, e]

/-- Take the labels of a history, its newest label last. -/
def exec (step : σ → α → Option σ) (s₀ : σ) : List α → Option σ
  | [] => some s₀
  | a :: tr => (exec step s₀ tr).bind fun s => step s a

lemma exec_run {step : σ → α → Option σ} {s₀ s : σ} {tr : List α} (e : exec step s₀ tr = some s) :
    Run (fun s a s' => step s a = some s') s₀ tr s := by
  induction tr generalizing s with
  | nil =>
    cases e
    exact .nil
  | cons a tr ih =>
    obtain ⟨s₁, e₁, st⟩ := Option.bind_eq_some_iff.mp e
    exact .cons (ih e₁) st

/-- Serve the inputs of a history, the newest one last, and record the answers. -/
def serve (step : σ → ι → Option (ο × σ)) (s₀ : σ) : List ι → Option (List (ι × ο) × σ)
  | [] => some ([], s₀)
  | i :: is => (serve step s₀ is).bind fun r => (step r.2 i).map fun a => ((i, a.1) :: r.1, a.2)

lemma serve_run {step : σ → ι → Option (ο × σ)} {s₀ s : σ} {is : List ι} {tr : List (ι × ο)}
    (e : serve step s₀ is = some (tr, s)) : Run (Answers step) s₀ tr s := by
  induction is generalizing tr s with
  | nil =>
    cases e
    exact .nil
  | cons i is ih =>
    obtain ⟨⟨tr, s₁⟩, before, last⟩ := Option.bind_eq_some_iff.mp e
    obtain ⟨⟨o, s₂⟩, st, res⟩ := Option.map_eq_some_iff.mp last
    cases res
    exact .cons (ih before) st

end SweetClib.Lib
