import Mathlib.Data.Int.CardIntervalMod
import Mathlib.Tactic

/-!
# Walks around a circle

A search that goes around `n` places and starts where the last one ended is a walk along the
natural numbers: its position `p` is the place `p % n`. A round of it skips the places that are not
good and stops behind the first one that is (`FirstFrom`). So a good place is chosen as often as
the walk comes past it (`passes_walk`), and a walk comes past any two places equally often, up to
one time (`passes_fair`).
-/

namespace SweetClib.Lib

variable {n : Nat}

/-- From the position `p` on, the first good place is `k` places ahead. -/
structure FirstFrom (n : Nat) (good : Nat → Prop) (p k : Nat) : Prop where
  found : good ((p + k) % n)
  first : ∀ m < k, ¬ good ((p + m) % n)

/-- How often a walk from 0 to the position `p` comes past the place `i`. -/
def passes (n i p : Nat) : Nat := Nat.count (· ≡ i [MOD n]) p

/-- A round that chooses a place comes past it once, and past no other good place. -/
lemma passes_walk {good : Nat → Prop} {p k i : Nat} (next : FirstFrom n good p k) (lt : i < n)
    (ok : good i) : passes n i (p + k + 1) = passes n i p + if (p + k) % n = i then 1 else 0 := by
  have skipped : Nat.count (fun m => p + m ≡ i [MOD n]) k = 0 := by
    rw [Nat.count_iff_forall_not]
    intro m lt' same
    apply next.first m lt'
    rw [Nat.ModEq, Nat.mod_eq_of_lt lt] at same
    rwa [same]
  have stop : p + k ≡ i [MOD n] ↔ (p + k) % n = i := by rw [Nat.ModEq, Nat.mod_eq_of_lt lt]
  rw [passes, Nat.count_succ, Nat.count_add, skipped, Nat.add_zero, passes]
  simp only [stop]

/-- A walk comes past two places equally often, up to one time. -/
lemma passes_fair {i j p q : Nat} (pos : 0 < n) (lti : i < n) (ltj : j < n) (le : p ≤ q) :
    passes n i q + passes n j p ≤ passes n j q + passes n i p + 1 := by
  have div : p / n ≤ q / n := Nat.div_le_div_right le
  have mod : p / n = q / n → p % n ≤ q % n := by
    intro same
    have hp := Nat.div_add_mod p n
    have hq := Nat.div_add_mod q n
    rw [same] at hp
    omega
  simp only [passes, Nat.count_modEq_card _ pos, Nat.mod_eq_of_lt lti, Nat.mod_eq_of_lt ltj]
  split_ifs <;> omega

end SweetClib.Lib
