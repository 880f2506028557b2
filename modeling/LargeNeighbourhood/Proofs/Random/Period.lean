/-
# The period of the generator

The state moves by an affine map modulo `2⁶⁴`.  Where the constant term is odd the map goes
through all words before one comes back, whatever the word it starts from; and the constant term
of every generator that can be obtained is odd.

With the factor `a = 4 b + 1` and the constant term `c`, `n` moves take `x` to
`aⁿ x + (1 + a + … + aⁿ⁻¹) c`.  The difference from `x` is the geometric sum times
`(a - 1) x + c`, which is odd, so the state is back exactly when `2⁶⁴` divides the sum.  The sum
has as many factors two as `n` (lifting the exponent, because `4` divides `a - 1`), so it is back
exactly after the multiples of `2⁶⁴`; and `2⁶⁴` states without a repetition are all the words.
-/
import Mathlib
import LargeNeighbourhood.Proofs.Random.Draws
import LargeNeighbourhood.Random.Shuffle

namespace LargeNeighbourhood

open Finset

namespace Generator

/-! ## 1. Many moves of the state -/

theorem toNat_advance (increment state : UInt64) :
    (advance increment state).toNat
      ≡ multiplier.toNat * state.toNat + increment.toNat [MOD 2 ^ 64] := by
  unfold advance
  rw [UInt64.toNat_add, UInt64.toNat_mul, mul_comm]
  exact (Nat.mod_modEq _ _).trans ((Nat.mod_modEq _ _).add_right _)

/-- The state after `n` moves, in closed form. -/
theorem toNat_iterate_advance (increment state : UInt64) (n : ℕ) :
    ((advance increment)^[n] state).toNat
      ≡ multiplier.toNat ^ n * state.toNat
        + (∑ i ∈ range n, multiplier.toNat ^ i) * increment.toNat [MOD 2 ^ 64] := by
  induction n with
  | zero => simp [Nat.ModEq]
  | succ n ih =>
    set a := multiplier.toNat
    set c := increment.toNat
    rw [Function.iterate_succ_apply']
    calc (advance increment ((advance increment)^[n] state)).toNat
        ≡ a * ((advance increment)^[n] state).toNat + c [MOD 2 ^ 64] := toNat_advance _ _
      _ ≡ a * (a ^ n * state.toNat + (∑ i ∈ range n, a ^ i) * c) + c [MOD 2 ^ 64] :=
          (ih.mul_left _).add_right _
      _ = a ^ (n + 1) * state.toNat + (∑ i ∈ range (n + 1), a ^ i) * c := by
          rw [geom_sum_succ]
          ring

/-! ## 2. The geometric sum -/

/-- The geometric sum of `n` powers has as many factors two as `n`. -/
theorem two_pow_dvd_geom_sum (k n : ℕ) :
    2 ^ k ∣ ∑ i ∈ range n, multiplier.toNat ^ i ↔ 2 ^ k ∣ n := by
  set a := multiplier.toNat
  set s := ∑ i ∈ range n, a ^ i
  have hsum : (s : ℤ) * ((a : ℤ) - 1) = (a : ℤ) ^ n - 1 ^ n := by
    rw [one_pow, ← geom_sum_mul]
    simp [s]
  have hlift := Int.two_pow_sub_pow' (x := (a : ℤ)) (y := 1) n (by decide) (by decide)
  rw [← hsum, emultiplicity_mul Int.prime_two, add_comm] at hlift
  have hfin : emultiplicity (2 : ℤ) ((a : ℤ) - 1) ≠ ⊤ :=
    finiteMultiplicity_iff_emultiplicity_ne_top.1
      (Int.finiteMultiplicity_iff.2 ⟨by decide, by decide⟩)
  have hmult : emultiplicity (2 : ℤ) (s : ℤ) = emultiplicity (2 : ℤ) (n : ℤ) :=
    ENat.add_right_injective_of_ne_top hfin hlift
  have hs : emultiplicity 2 s = emultiplicity 2 n := by
    rw [← Int.natCast_emultiplicity, ← Int.natCast_emultiplicity]
    exact hmult
  rw [pow_dvd_iff_le_emultiplicity, pow_dvd_iff_le_emultiplicity, hs]

/-- Where the constant term is odd, the state is back exactly after the multiples of `2⁶⁴`. -/
theorem iterate_advance_eq_self {increment : UInt64} (hodd : Odd increment.toNat)
    (state : UInt64) (n : ℕ) :
    (advance increment)^[n] state = state ↔ 2 ^ 64 ∣ n := by
  set s := ∑ i ∈ range n, multiplier.toNat ^ i
  -- The factor is one more than a multiple of four.
  have hpow : s * (4 * 1591034055961698251) + 1 = multiplier.toNat ^ n :=
    geom_sum_mul_add _ n
  -- What `n` moves add to the state is the sum times an odd number.
  have hmoved : multiplier.toNat ^ n * state.toNat + s * increment.toNat
      = state.toNat + (4 * 1591034055961698251 * state.toNat + increment.toNat) * s := by
    rw [← hpow]
    ring
  have hcoprime :
      Nat.Coprime (2 ^ 64) (4 * 1591034055961698251 * state.toNat + increment.toNat) := by
    refine Nat.Coprime.pow_left _ (Nat.coprime_two_left.2 (Even.add_odd ?_ hodd))
    exact ((by decide : Even (4 * 1591034055961698251))).mul_right _
  have hstate : (advance increment)^[n] state = state ↔
      ((advance increment)^[n] state).toNat ≡ state.toNat [MOD 2 ^ 64] := by
    rw [← UInt64.toNat_inj, Nat.ModEq, Nat.mod_eq_of_lt (UInt64.toNat_lt _),
      Nat.mod_eq_of_lt (UInt64.toNat_lt _)]
  calc (advance increment)^[n] state = state
      ↔ state.toNat + (4 * 1591034055961698251 * state.toNat + increment.toNat) * s
          ≡ state.toNat [MOD 2 ^ 64] := by
        rw [hstate, ← hmoved]
        exact ⟨fun h => (toNat_iterate_advance _ _ _).symm.trans h,
          fun h => (toNat_iterate_advance _ _ _).trans h⟩
    _ ↔ 2 ^ 64 ∣ (4 * 1591034055961698251 * state.toNat + increment.toNat) * s :=
        Nat.add_modEq_left_iff
    _ ↔ 2 ^ 64 ∣ s := hcoprime.dvd_mul_left
    _ ↔ 2 ^ 64 ∣ n := two_pow_dvd_geom_sum 64 n

/-! ## 3. The states of a generator -/

/-- The state after `n` words. -/
def stateAfter (g : Generator) (n : ℕ) : UInt64 := ((fun h : Generator => h.next.2)^[n] g).state

theorem next_state (g : Generator) : g.next.2.state = advance g.increment g.state := rfl

theorem stateAfter_eq (g : Generator) (n : ℕ) :
    g.stateAfter n = (advance g.increment)^[n] g.state := by
  unfold stateAfter
  induction n generalizing g with
  | zero => rfl
  | succ n ih =>
    rw [Function.iterate_succ_apply, Function.iterate_succ_apply, ih, next_increment, next_state]

variable {g : Generator}

/-- Two numbers of words end in one state exactly when they differ by a multiple of `2⁶⁴`. -/
theorem stateAfter_add_eq (hodd : Odd g.increment.toNat) (n k : ℕ) :
    g.stateAfter (n + k) = g.stateAfter n ↔ 2 ^ 64 ∣ k := by
  rw [stateAfter_eq, stateAfter_eq, Nat.add_comm, Function.iterate_add_apply]
  exact iterate_advance_eq_self hodd _ k

theorem stateAfter_injective (hodd : Odd g.increment.toNat) :
    Function.Injective fun n : Fin UInt64.size => g.stateAfter n := by
  -- Of two places the later one is less than a period further on.
  have later : ∀ m n : Fin UInt64.size, m ≤ n → g.stateAfter m = g.stateAfter n → m = n := by
    intro m n hle heq
    have hsum : (m : ℕ) + (n - m) = n := Nat.add_sub_cancel' hle
    have hdvd : 2 ^ 64 ∣ (n : ℕ) - m := by
      rw [← stateAfter_add_eq hodd m, hsum, heq]
    have hlt : (n : ℕ) - m < 2 ^ 64 := (Nat.sub_le _ _).trans_lt n.isLt
    have hge : (n : ℕ) ≤ m := Nat.sub_eq_zero_iff_le.1 (Nat.eq_zero_of_dvd_of_lt hdvd hlt)
    exact Fin.ext (le_antisymm hle hge)
  intro m n heq
  rcases le_total m n with hle | hle
  · exact later m n hle heq
  · exact (later n m hle heq.symm).symm

/-- Every word is a state, at one place of the period. -/
theorem existsUnique_stateAfter (hodd : Odd g.increment.toNat) (state : UInt64) :
    ∃! n, n < 2 ^ 64 ∧ g.stateAfter n = state := by
  have hinj : Function.Injective fun n : Fin UInt64.size => (g.stateAfter n).toFin :=
    fun m n h => stateAfter_injective hodd (UInt64.toFin_inj.1 h)
  obtain ⟨n, hn⟩ := Finite.surjective_of_injective hinj state.toFin
  refine ⟨n, ⟨n.isLt, UInt64.toFin_inj.1 hn⟩, ?_⟩
  rintro m ⟨hm, hstate⟩
  have heq : (⟨m, hm⟩ : Fin UInt64.size) = n :=
    stateAfter_injective hodd (hstate.trans (UInt64.toFin_inj.1 hn).symm)
  exact congrArg Fin.val heq

end Generator

/-! ## 4. Draws keep the constant term -/

section Steady

variable {α β K : Type}

/-- A draw that ends with the constant term it began with. -/
def Draw.Steady (d : Draw α) : Prop :=
  ∀ g, (d g : α × Generator).2.increment = g.increment

namespace Draw

theorem Steady.pure (a : α) : Steady (Pure.pure a : Draw α) := fun _ => rfl

theorem Steady.bind {d : Draw α} {next : α → Draw β} (hd : Steady d)
    (hnext : ∀ a, Steady (next a)) : Steady (d >>= next) :=
  fun g => (hnext _ _).trans (hd g)

theorem Steady.sampling {d : Sampling K α} {next : α → Sampling K β} (hd : Steady d)
    (hnext : ∀ a, Steady (next a)) : Steady (d >>= next : Sampling K β) := by
  intro g
  rw [Sampling.bind_apply]
  have hg := hd g
  generalize (d g : Except (Fault K) α × Generator) = ended at hg ⊢
  obtain ⟨_ | a, g'⟩ := ended
  · exact hg
  · exact (hnext a g').trans hg

theorem word_steady : Steady word := Generator.next_increment

theorem below_steady (n : Nat) (h : 0 < n) : Steady (below n h) :=
  word_steady.bind fun _ => .pure _

theorem integer_steady (a b : Int) : Steady (integer a b) :=
  word_steady.bind fun _ => .pure _

theorem uniform_steady [Scalar K] : Steady (uniform : Draw K) :=
  word_steady.bind fun _ => .pure _

theorem uniformIn_steady [Scalar K] (low high : K) : Steady (uniformIn low high) :=
  uniform_steady.bind fun _ => .pure _

theorem shuffleFrom_steady (n : Nat) (xs : Array α) : Steady (shuffleFrom n xs) := by
  induction n generalizing xs with
  | zero => exact .pure _
  | succ n ih => exact (below_steady _ _).bind fun _ => ih _

theorem permutation_steady (n : Int) : Steady (Sampling.permutation n : Sampling K _) := by
  unfold Sampling.permutation
  split
  · exact .pure _
  · exact (shuffleFrom_steady _ _).bind fun _ => .pure _

theorem choice_steady (n k : Int) : Steady (Sampling.choice n k : Sampling K _) := by
  refine Steady.sampling (permutation_steady n) fun order => ?_
  split <;> exact .pure _

theorem weighted_steady [Scalar K] (entries : List (K × α)) :
    Steady (Sampling.weighted entries) := by
  cases entries with
  | nil => exact .pure _
  | cons first rest =>
    refine Steady.sampling (fun _ => rfl) fun total => ?_
    exact Steady.sampling (uniform_steady.bind fun _ => .pure _) fun _ => .pure _

end Draw

end Steady

/-! ## 5. Generators that can be obtained -/

namespace Generator

/-- The generators a program can come by: that of a seed, the one that needs none, and from one
of these what any draw leaves, whether it fails or not, and both sides of a split.  A copy is the
generator itself. -/
inductive Obtained : Generator → Prop
  | ofSeed (seed : UInt64) : Obtained (ofSeed seed)
  | standard : Obtained standard
  | word {g : Generator} : Obtained g → Obtained (Draw.word g : UInt32 × Generator).2
  | integer {g : Generator} (a b : Int) :
      Obtained g → Obtained (Draw.integer a b g : Int × Generator).2
  | uniform {g : Generator} (K : Type) [Scalar K] :
      Obtained g → Obtained (Draw.uniform g : K × Generator).2
  | uniformIn {g : Generator} {K : Type} [Scalar K] (low high : K) :
      Obtained g → Obtained (Draw.uniformIn low high g : K × Generator).2
  | permutation {g : Generator} (K : Type) (n : Int) :
      Obtained g →
      Obtained ((Sampling.permutation n : Sampling K _) g : Except (Fault K) _ × Generator).2
  | choice {g : Generator} (K : Type) (n k : Int) :
      Obtained g →
      Obtained ((Sampling.choice n k : Sampling K _) g : Except (Fault K) _ × Generator).2
  | weighted {g : Generator} {K : Type} [Scalar K] (weights : List K) :
      Obtained g →
      Obtained (Sampling.weightedIndex weights g : Except (Fault K) Nat × Generator).2
  | child {g : Generator} : Obtained g → Obtained g.split.1
  | rest {g : Generator} : Obtained g → Obtained g.split.2

theorem ofSeed_odd (seed : UInt64) : Odd (ofSeed seed).increment.toNat := by
  show Odd (seed ||| 1).toNat
  rw [UInt64.toNat_or, Nat.odd_iff]
  exact Nat.or_mod_two_eq_one.2 (.inr rfl)

variable {g : Generator}

theorem Obtained.odd (h : Obtained g) : Odd g.increment.toNat := by
  induction h with
  | ofSeed seed => exact ofSeed_odd seed
  | standard => decide
  | word _ ih => rwa [Draw.word_steady]
  | integer a b _ ih => rwa [Draw.integer_steady a b]
  | uniform K _ ih => rwa [Draw.uniform_steady]
  | uniformIn low high _ ih => rwa [Draw.uniformIn_steady low high]
  | permutation K n _ ih => rwa [Draw.permutation_steady n]
  | choice K n k _ ih => rwa [Draw.choice_steady n k]
  | weighted weights _ ih => rwa [Sampling.weightedIndex, Draw.weighted_steady]
  | child _ _ => exact ofSeed_odd _
  | rest _ ih => rwa [split_increment]

/-- **Every generator has the full period.**  Its constant term is odd; two numbers of words end
in one state exactly when they differ by a multiple of `2⁶⁴`; and every word is the state at
exactly one place before the first repetition. -/
theorem Obtained.full_period (h : Obtained g) :
    Odd g.increment.toNat ∧
    (∀ n k, g.stateAfter (n + k) = g.stateAfter n ↔ 2 ^ 64 ∣ k) ∧
    ∀ state, ∃! n, n < 2 ^ 64 ∧ g.stateAfter n = state :=
  ⟨h.odd, stateAfter_add_eq h.odd, existsUnique_stateAfter h.odd⟩

/-- The period of a generator split off after a shuffle and a refused choice by weight. -/
theorem full_period_after_split :
    let shuffled := ((Sampling.permutation 52 : Sampling ℚ _) (ofSeed 7) : _ × Generator).2
    let refused := (Sampling.weightedIndex [1, -1] shuffled : Except (Fault ℚ) Nat × Generator)
    let g := refused.2.split.1
    refused.1 = .error .negativeWeight ∧ Obtained g ∧ Odd g.increment.toNat ∧
    (∀ n k, g.stateAfter (n + k) = g.stateAfter n ↔ 2 ^ 64 ∣ k) ∧
    ∀ state, ∃! n, n < 2 ^ 64 ∧ g.stateAfter n = state := by
  intro shuffled refused g
  have hg : Obtained g := (((Obtained.ofSeed 7).permutation ℚ 52).weighted [1, -1]).child
  exact ⟨rfl, hg, Obtained.full_period hg⟩

end Generator

end LargeNeighbourhood
