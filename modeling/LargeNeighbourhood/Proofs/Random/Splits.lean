/-
# Generators split off one after the other

A generator split off is that of a seed of 32 bits, the next word.  Different seeds give different
generators (`ofSeed_injective`), so two generators split off in a row differ exactly when the two
words do.  Now and then they do not.  A word does not depend on the lowest 27 bits of the state that
shows it (`output_congr`), so a state that moves by little, and without a carry out of those bits,
shows a word twice.

Such a state there is for every constant term `c`.  The factor is `4 q + 1`, so a move adds
`4 q s + c` to the state `s`; and as `q` is odd, `4 q s` can be any multiple of four, among them the
one that makes the sum the remainder of `c` by four (`advance_slow`).  If that carries, then at the
state where the sum is four more it does not (`exists_output_advance_eq`).  A generator of full period
comes by every state, and so by this one.
-/
import Mathlib
import LargeNeighbourhood.Proofs.Random.Permutations
import LargeNeighbourhood.Proofs.Random.Words

namespace LargeNeighbourhood

namespace Generator

open scoped UInt64.CommRing

/-! ## 1. Seeds -/

/-- Twice the factor and one more can be undone, because it is odd. -/
theorem twice_multiplier_inverse : (2 * multiplier + 1) * 16779575949981516243 = 1 := by decide

theorem state_ofSeed (seed : UInt64) :
    (ofSeed seed).state = (seed ||| 1) * multiplier + seed * multiplier + (seed ||| 1) := by
  show (0 * multiplier + (seed ||| 1) + seed) * multiplier + (seed ||| 1) = _
  ring

/-- Making a seed odd adds one to an even seed and nothing to an odd one. -/
theorem or_one_add_mod (seed : UInt64) : (seed ||| 1) + seed % 2 = seed + 1 := by
  have hhalf : (seed.toNat ||| 1) / 2 = seed.toNat / 2 := by
    rw [Nat.or_div_two]
    exact Nat.or_zero _
  have hodd : (seed.toNat ||| 1) % 2 = 1 := Nat.or_mod_two_eq_one.2 (Or.inr rfl)
  refine UInt64.toNat_inj.1 ?_
  simp only [UInt64.toNat_add, UInt64.toNat_or, UInt64.toNat_mod, UInt64.reduceToNat]
  omega

/-- The state of an odd seed is odd, and that of an even seed even. -/
theorem state_ofSeed_mod_two (seed : UInt64) : (ofSeed seed).state % 2 = seed % 2 := by
  have hodd : (seed.toNat ||| 1) % 2 = 1 := Nat.or_mod_two_eq_one.2 (Or.inr rfl)
  refine UInt64.toNat_inj.1 ?_
  rw [state_ofSeed]
  simp only [multiplier, UInt64.toNat_add, UInt64.toNat_mul, UInt64.toNat_or, UInt64.toNat_mod,
    UInt64.reduceToNat]
  omega

/-- **Different seeds give different states.** -/
theorem state_ofSeed_injective : Function.Injective fun seed => (ofSeed seed).state := by
  intro s t heq
  have hparity : s % 2 = t % 2 := by
    rw [← state_ofSeed_mod_two s, ← state_ofSeed_mod_two t]
    exact congrArg (· % 2) heq
  -- of two seeds with the same parity both are made odd by the same summand
  have hincrements : (s ||| 1) - (t ||| 1) = s - t := by
    linear_combination or_one_add_mod s - or_one_add_mod t - hparity
  simp only [state_ofSeed] at heq
  linear_combination 16779575949981516243 * (heq - (multiplier + 1) * hincrements)
    - (s - t) * twice_multiplier_inverse

/-- Different seeds give different generators. -/
theorem ofSeed_injective : Function.Injective ofSeed := fun _ _ heq =>
  state_ofSeed_injective (congrArg Generator.state heq)

theorem split_fst (g : Generator) : g.split.1 = ofSeed g.next.1.toUInt64 := rfl

theorem split_snd (g : Generator) : g.split.2 = g.next.2 := rfl

/-- Two generators split off in a row are equal exactly when the words are. -/
theorem split_eq_iff (g : Generator) :
    g.split.1 = g.split.2.split.1 ↔ g.next.1 = g.next.2.next.1 := by
  rw [split_fst, split_fst, split_snd, ofSeed_injective.eq_iff, UInt32.toUInt64_inj]

/-! ## 2. Words that come twice -/

/-- A word does not depend on the lowest 27 bits of the state. -/
theorem output_congr {s t : UInt64} (h : s.toNat / 2 ^ 27 = t.toNat / 2 ^ 27) :
    output s = output t := by
  have hmiddle : (fold s).toNat / 2 ^ 27 = (fold t).toNat / 2 ^ 27 := by
    simp only [← Nat.shiftRight_eq_div_pow] at h ⊢
    rw [toNat_fold, toNat_fold, Nat.shiftRight_xor_distrib, Nat.shiftRight_xor_distrib,
      ← Nat.shiftRight_add, ← Nat.shiftRight_add, Nat.add_comm, Nat.shiftRight_add,
      Nat.shiftRight_add, h]
  rw [output_eq, output_eq]
  congr 1
  · rw [← UInt32.toNat_inj, toNat_middle, toNat_middle, hmiddle]
  · rw [← UInt32.toNat_inj, toNat_amount, toNat_amount]
    omega

/-- A state to which little is added, without a carry out of these bits, shows the same word. -/
theorem output_add {s d : UInt64} (h : s.toNat % 2 ^ 27 + d.toNat < 2 ^ 27) :
    output (s + d) = output s := by
  refine output_congr ?_
  have hs := s.toNat_lt
  rw [UInt64.toNat_add]
  omega

/-- A quarter of the factor, which is one more than four of them. -/
def quarter : UInt64 := 1591034055961698251

/-- What undoes a multiplication by `quarter`, which is odd. -/
def quarterInverse : UInt64 := 15149936092555529699

theorem multiplier_eq : multiplier = 4 * quarter + 1 := by decide

theorem quarter_mul_inverse : quarter * quarterInverse = 1 := by decide

/-- The state to which a move adds `4 j` and the remainder of the constant term by four. -/
def slow (increment j : UInt64) : UInt64 := quarterInverse * (j - increment / 4)

theorem mod_four_add_div (word : UInt64) : word % 4 + 4 * (word / 4) = word := by
  have hword := word.toNat_lt
  have hfour : (4 : UInt64).toNat = 4 := rfl
  refine UInt64.toNat_inj.1 ?_
  rw [UInt64.toNat_add, UInt64.toNat_mul, UInt64.toNat_mod, UInt64.toNat_div, hfour]
  omega

theorem advance_slow (increment j : UInt64) :
    advance increment (slow increment j) = slow increment j + (4 * j + increment % 4) := by
  unfold advance slow
  rw [multiplier_eq]
  linear_combination 4 * (j - increment / 4) * quarter_mul_inverse - mod_four_add_div increment

/-- The lowest bits of the states for no four and for one four lie far apart. -/
theorem toNat_slow_one (increment : UInt64) :
    (slow increment 1).toNat % 2 ^ 27 = ((slow increment 0).toNat + 111431139) % 2 ^ 27 := by
  have hsum : slow increment 1 = slow increment 0 + quarterInverse := by
    unfold slow
    ring
  have hinverse : quarterInverse.toNat = 15149936092555529699 := rfl
  rw [hsum, UInt64.toNat_add, hinverse]
  omega

/-- For every constant term there is a state that shows the word that the next one shows. -/
theorem exists_output_advance_eq (increment : UInt64) :
    ∃ state, output (advance increment state) = output state := by
  have hremainder : (increment % 4).toNat < 4 := by
    rw [UInt64.toNat_mod]
    exact Nat.mod_lt _ (by decide)
  by_cases hcarry : (slow increment 0).toNat % 2 ^ 27 + (increment % 4).toNat < 2 ^ 27
  · refine ⟨slow increment 0, ?_⟩
    rw [advance_slow, mul_zero, zero_add]
    exact output_add hcarry
  · have hfour : (4 * 1 + increment % 4).toNat = 4 + (increment % 4).toNat := by
      rw [mul_one, UInt64.toNat_add]
      exact Nat.mod_eq_of_lt (by simp only [UInt64.reduceToNat]; omega)
    refine ⟨slow increment 1, ?_⟩
    rw [advance_slow]
    refine output_add ?_
    rw [toNat_slow_one]
    omega

/-! ## 3. Splits in a row -/

variable {g : Generator}

/-- **Splits in a row differ when the words do**, and only then.  Every generator with an odd constant
term comes, after fewer than `2⁶⁴` words, to a state from which two splits in a row are the same. -/
theorem splits_differ_iff (hodd : Odd g.increment.toNat) :
    (g.split.1 ≠ g.split.2.split.1 ↔ g.next.1 ≠ g.next.2.next.1) ∧
    ∃ n < 2 ^ 64, (g.skip n).split.1 = (g.skip n).split.2.split.1 := by
  refine ⟨(split_eq_iff g).not, ?_⟩
  obtain ⟨state, hstate⟩ := exists_output_advance_eq g.increment
  obtain ⟨n, ⟨hn, hreached⟩, -⟩ := existsUnique_stateAfter hodd state
  refine ⟨n, hn, (split_eq_iff _).2 ?_⟩
  rw [skip_eq, hreached]
  exact hstate.symm

/-- The first two generators split off that of the seed seven differ. -/
theorem splits_differ_iff_seven :
    Odd (ofSeed 7).increment.toNat ∧ (ofSeed 7).split.1 ≠ (ofSeed 7).split.2.split.1 ∧
    ∃ n < 2 ^ 64, ((ofSeed 7).skip n).split.1 = ((ofSeed 7).skip n).split.2.split.1 :=
  have hodd : Odd (ofSeed 7).increment.toNat := by decide
  ⟨hodd, (splits_differ_iff hodd).1.2 (by decide), (splits_differ_iff hodd).2⟩

/-- The first two words of this seed are the same, and so are the first two generators split off. -/
theorem splits_coincide :
    Odd (ofSeed 6200878220).increment.toNat ∧
    (ofSeed 6200878220).split.1 = (ofSeed 6200878220).split.2.split.1 := by
  decide

end Generator

end LargeNeighbourhood
