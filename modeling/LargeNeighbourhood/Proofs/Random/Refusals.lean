/-
# What a failure leaves of the generator

A permutation and a choice by weight fail before they draw, if they fail, and so leave the generator
as it was (`Sampling.InPlace`).  A choice of several does not.  It cuts the size down to the number of
entries but not up to zero, and finds out that the size is negative when it cuts the permutation,
which is drawn by then.  The generator has moved on by the words of the permutation; if there are
two entries or more there are such words, fewer than the period, so it is not back
(`choice_moves_on_failure`).
-/
import Mathlib
import LargeNeighbourhood.Proofs.Random.Permutations
import LargeNeighbourhood.Random.Weighted

namespace LargeNeighbourhood

namespace Sampling

variable {K α β : Type}

/-! ## 1. Failing in place -/

/-- A sampling that leaves the generator as it was when it fails. -/
def InPlace (d : Sampling K α) : Prop :=
  ∀ g f g', (d g : Except (Fault K) α × Generator) = (.error f, g') → g' = g

namespace InPlace

theorem throw (f : Fault K) : InPlace (throw f : Sampling K α) := by
  intro g f' g' hfail
  exact (congrArg Prod.snd hfail).symm

/-- What only draws does not fail. -/
theorem draw (d : Draw α) : InPlace (liftM d : Sampling K α) := by
  intro g f g' hfail
  cases congrArg Prod.fst hfail

/-- What is checked before anything is drawn fails in place. -/
theorem check (r : Except (Fault K) α) {next : α → Sampling K β} (hnext : ∀ a, InPlace (next a)) :
    InPlace (Sampling.ofExcept r >>= next) := by
  intro g f g' hfail
  cases r with
  | error f' => exact throw f' g f g' hfail
  | ok a => exact hnext a g f g' hfail

theorem permutation (n : ℤ) : InPlace (permutation n : Sampling K (Array ℕ)) := by
  unfold Sampling.permutation
  split
  · exact throw _
  · exact draw _

theorem weighted [Scalar K] (entries : List (K × α)) : InPlace (weighted entries) := by
  cases entries with
  | nil => exact throw _
  | cons first rest =>
    refine check _ fun total => ?_
    exact draw (Draw.uniform >>= fun u => pure
      ((firstAbove (u * total) 0 (first :: rest)).getD (lastPositive first rest)))

end InPlace

/-! ## 2. Choices of several -/

/-- The permutation is drawn, and then a negative size is found. -/
theorem choice_negative {n k : ℤ} (h : n < 0 ∨ k < 0) (g : Generator) :
    (choice n k : Sampling K (Array ℕ)) g = (.error .negativeSize, g.skip (n - 1).toNat) := by
  rw [choice, bind_apply]
  rcases lt_or_ge n 0 with hn | hn
  · have hnone : (n - 1).toNat = 0 := by omega
    rw [permutation, if_pos hn, hnone]
    rfl
  · have hsize : min k n < 0 := by omega
    have hwords : (n - 1).toNat = n.toNat - 1 := by omega
    have hpermutation := permutation_eq (K := K) n.toNat g
    rw [Int.toNat_of_nonneg hn] at hpermutation
    rw [hpermutation, hwords]
    simp only [if_pos hsize]
    rfl

theorem choice_fails_iff (n k : ℤ) (g : Generator) :
    (∃ f g', (choice n k : Sampling K (Array ℕ)) g = (.error f, g')) ↔ n < 0 ∨ k < 0 := by
  constructor
  · rintro ⟨f, g', hfail⟩
    by_contra hnone
    obtain ⟨hn, hk⟩ := not_or.1 hnone
    have hchosen := choice_eq (K := K) n.toNat k.toNat g
    rw [Int.toNat_of_nonneg (not_lt.1 hn), Int.toNat_of_nonneg (not_lt.1 hk), hfail] at hchosen
    cases congrArg Prod.fst hchosen
  · exact fun h => ⟨_, _, choice_negative h g⟩

end Sampling

/-- After fewer words than the period, a generator is not back. -/
theorem Generator.skip_eq_self_iff {g : Generator} (hodd : Odd g.increment.toNat) {n : ℕ}
    (hn : n < 2 ^ 64) : g.skip n = g ↔ n = 0 := by
  have hback : g.skip n = g ↔ g.stateAfter (0 + n) = g.stateAfter 0 := by
    rw [Nat.zero_add, skip_eq]
    exact ⟨congrArg Generator.state, fun h => congrArg (Generator.mk · g.increment) h⟩
  rw [hback, stateAfter_add_eq hodd]
  exact ⟨fun h => Nat.eq_zero_of_dvd_of_lt h hn, fun h => h ▸ dvd_zero _⟩

namespace Sampling

/-- **Only a choice of several moves the generator when it fails.**  A permutation and a choice by
weight that fail leave it as it was.  A choice of several fails if one of its numbers is negative, and
leaves the generator behind the words of the permutation; so, where the constant term is odd, it
leaves the generator as it was exactly if there was at most one entry. -/
theorem choice_moves_on_failure (K : Type) [Scalar K] (g : Generator) :
    (∀ (n : Int32) f g', (permutation n.toInt : Sampling K _) g = (.error f, g') → g' = g) ∧
    (∀ (weights : List K) f g', (weightedIndex weights g : Except (Fault K) ℕ × Generator)
      = (.error f, g') → g' = g) ∧
    ∀ n k : Int32,
      ((∃ f g', (choice n.toInt k.toInt : Sampling K _) g = (.error f, g'))
        ↔ n.toInt < 0 ∨ k.toInt < 0) ∧
      ∀ f g', (choice n.toInt k.toInt : Sampling K _) g = (.error f, g') →
        f = .negativeSize ∧ g' = g.skip (n.toInt - 1).toNat ∧
        (Odd g.increment.toNat → (g' = g ↔ n.toInt ≤ 1)) := by
  refine ⟨fun n => InPlace.permutation n.toInt g, fun weights => InPlace.weighted _ g,
    fun n k => ⟨choice_fails_iff _ _ g, fun f g' hfail => ?_⟩⟩
  have hnegative := choice_negative (K := K) ((choice_fails_iff _ _ g).1 ⟨f, g', hfail⟩) g
  rw [hfail] at hnegative
  obtain ⟨hf, rfl⟩ := Prod.mk.inj hnegative
  refine ⟨Except.error.inj hf, rfl, fun hodd => ?_⟩
  have hn := n.toInt_lt
  rw [Generator.skip_eq_self_iff hodd (by omega)]
  omega

/-- What three failures leave of the generator that needs no seed. -/
theorem choice_moves_on_failure_standard :
    let g := Generator.standard
    let ordered := (permutation (-3 : Int32).toInt : Sampling ℚ _) g
    let weighed := (weightedIndex [1, -1] g : Except (Fault ℚ) ℕ × Generator)
    let chosen := (choice (5 : Int32).toInt (-2 : Int32).toInt : Sampling ℚ _) g
    (ordered.1 = .error .negativeSize ∧ ordered.2 = g) ∧
    (weighed.1 = .error .negativeWeight ∧ weighed.2 = g) ∧
    Odd g.increment.toNat ∧ chosen.1 = .error .negativeSize ∧ chosen.2 = g.skip 4 ∧
    chosen.2 ≠ g := by
  intro g ordered weighed chosen
  obtain ⟨hordered, hweighed, hchosen⟩ := choice_moves_on_failure ℚ g
  obtain ⟨hfault, hwords, hback⟩ := (hchosen 5 (-2)).2 .negativeSize chosen.2 rfl
  have hodd : Odd g.increment.toNat := by decide
  exact ⟨⟨rfl, hordered (-3) .negativeSize _ rfl⟩, ⟨rfl, hweighed [1, -1] .negativeWeight _ rfl⟩,
    hodd, congrArg Except.error hfault, hwords, fun heq => absurd ((hback hodd).1 heq) (by decide)⟩

/-- Two words are drawn before a negative number of three is refused. -/
theorem choice_negative_moves :
    let g := Generator.ofSeed 7
    (choice 3 (-1) : Sampling ℚ _) g = (.error .negativeSize, g.skip 2) ∧ g.skip 2 ≠ g :=
  ⟨rfl, by decide⟩

end Sampling

end LargeNeighbourhood
