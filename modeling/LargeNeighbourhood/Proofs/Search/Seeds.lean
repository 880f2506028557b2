/-
# Engines with different seeds

An engine is made beside the generator of its seed, and registrations draw nothing.  So an engine
with all its operators begins its first run at the generator of its seed, whatever was registered and
whatever was refused (`Registration.rng_registerAll`).

A seed is made odd before it becomes the constant term of a generator.  Thus two seeds that differ in
the last bit share that term, and what tells them apart is the state, in which the seed itself went
in (`Generator.state_ofSeed_injective`).
-/
import Mathlib
import LargeNeighbourhood.Proofs.Random.Splits
import LargeNeighbourhood.Proofs.Search.Registration

namespace LargeNeighbourhood

open scoped UInt64.CommRing in
/-- An even seed and the odd one after it have the same constant term. -/
theorem Generator.increment_ofSeed_even (k : UInt64) :
    (ofSeed (2 * k)).increment = (ofSeed (2 * k + 1)).increment := by
  show 2 * k ||| 1 = 2 * k + 1 ||| 1
  have heven : 2 * k % 2 = 0 := by
    refine UInt64.toNat_inj.1 ?_
    simp only [UInt64.toNat_mod, UInt64.toNat_mul, UInt64.reduceToNat]
    omega
  have hodd : (2 * k + 1) % 2 = 1 := by
    refine UInt64.toNat_inj.1 ?_
    simp only [UInt64.toNat_mod, UInt64.toNat_add, UInt64.toNat_mul, UInt64.reduceToNat]
    omega
  linear_combination or_one_add_mod (2 * k) - or_one_add_mod (2 * k + 1) - heven + hodd

namespace Engine

/-- **Different seeds make different generators.**  A seed can be read off the state and the constant
term of its generator, even off the state alone, although an even seed shares the constant term with
the odd one after it.  An engine has the generator of its seed, also after any registrations; so the
generators of two engines are in one state only if the seeds are the same. -/
theorem seeds_apart (K X ω : Type) :
    Function.Injective (fun seed =>
      ((Generator.ofSeed seed).state, (Generator.ofSeed seed).increment)) ∧
    (∀ k : UInt64,
      (Generator.ofSeed (2 * k)).increment = (Generator.ofSeed (2 * k + 1)).increment) ∧
    ∀ (seed seed' : UInt64) (verbose verbose' : Bool) (history history' : List (Registration K X ω)),
      let w := Registration.registerAll history (seeded seed verbose)
      let w' := Registration.registerAll history' (seeded seed' verbose')
      w.rng = Generator.ofSeed seed ∧ (w.rng.state = w'.rng.state ↔ seed = seed') := by
  refine ⟨fun s t heq => ?_, Generator.increment_ofSeed_even,
    fun seed seed' verbose verbose' history history' => ?_⟩
  · exact Generator.state_ofSeed_injective (congrArg Prod.fst heq)
  · intro w w'
    have hw : w.rng = Generator.ofSeed seed := Registration.rng_registerAll _ _
    have hw' : w'.rng = Generator.ofSeed seed' := Registration.rng_registerAll _ _
    rw [hw, hw']
    exact ⟨rfl, Generator.state_ofSeed_injective.eq_iff⟩

/-- The seeds six and seven have the same constant term. -/
example : (Generator.ofSeed 6).increment = 7 ∧ (Generator.ofSeed 7).increment = 7 ∧
    (Generator.ofSeed 6).state ≠ (Generator.ofSeed 7).state := by decide

end Engine

end LargeNeighbourhood
