/-
# Every word is shown by as many states

A state of 64 bits shows a word of 32.  Its upper bits are folded onto the lower ones, the word is
cut out of the middle, and its bits are rotated by the number that the top five bits are.  Nothing is
lost on the way but what is cut off.  Folding leaves the top 18 bits and is undone from the top down
(`fold_injective`); and each rotation is undone by the opposite one (`rotateRight_injective`).  So a
state is known from its top five bits, the word that it shows and the 27 bits below the word
(`reading_injective`).  As there are as many states as such readings, every reading is that of a
state, and the states that show one of some words are `2³²` for each of them (`ncard_shows`).

The constant term of a generator plays no part in this, since a word is read before the state moves.
-/
import Mathlib
import LargeNeighbourhood.Proofs.Scalar.Exactness

namespace LargeNeighbourhood

namespace Generator

/-! ## 1. Rotations -/

theorem testBit_of_le (word : UInt32) {i : ℕ} (hi : 32 ≤ i) : word.toNat.testBit i = false :=
  Nat.testBit_lt_two_pow (word.toNat_lt.trans_le (Nat.pow_le_pow_right (by decide) hi))

/-- Bit `i` of a rotated word is the bit that many places further up, counted round. -/
theorem testBit_rotateRight (word : UInt32) {amount : UInt32} (hamount : amount.toNat < 32)
    {i : ℕ} (hi : i < 32) :
    (rotateRight word amount).toNat.testBit i = word.toNat.testBit ((i + amount.toNat) % 32) := by
  have hback : ((0 - amount) &&& 31).toNat % 32 = (32 - amount.toNat) % 32 := by
    have hmask : (31 : UInt32).toNat = 2 ^ 5 - 1 := rfl
    have hzero : (0 : UInt32).toNat = 0 := rfl
    rw [UInt32.toNat_and, UInt32.toNat_sub, hmask, hzero, Nat.and_two_pow_sub_one_eq_mod]
    omega
  unfold rotateRight
  rw [UInt32.toNat_or, Nat.testBit_or, UInt32.toNat_shiftRight, UInt32.toNat_shiftLeft,
    Nat.testBit_shiftRight, Nat.testBit_mod_two_pow, Nat.testBit_shiftLeft, hback,
    Nat.mod_eq_of_lt hamount, decide_eq_true hi, Bool.true_and]
  rcases lt_or_ge (i + amount.toNat) 32 with hlow | hhigh
  · rw [Nat.mod_eq_of_lt hlow]
    rcases Nat.eq_zero_or_pos amount.toNat with hzero | hpos
    · simp [hzero]
    · have hbefore : ¬(32 - amount.toNat) % 32 ≤ i := by omega
      simp [hbefore, Nat.add_comm]
  · have hplace : i - (32 - amount.toNat) % 32 = (i + amount.toNat) % 32 := by omega
    have hle : (32 - amount.toNat) % 32 ≤ i := by omega
    simp [testBit_of_le word (show 32 ≤ amount.toNat + i by omega), hplace, hle]

/-- A rotation is undone by the opposite one. -/
theorem rotateRight_injective {amount : UInt32} (hamount : amount.toNat < 32) :
    Function.Injective fun word => rotateRight word amount := by
  intro w v heq
  refine UInt32.toNat_inj.1 (Nat.eq_of_testBit_eq fun i => ?_)
  rcases lt_or_ge i 32 with hi | hi
  · -- the place that bit `i` is rotated to
    have hplace : ((i + (32 - amount.toNat)) % 32 + amount.toNat) % 32 = i := by omega
    have hbit := congrArg (fun u : UInt32 => u.toNat.testBit ((i + (32 - amount.toNat)) % 32)) heq
    simp only [testBit_rotateRight _ hamount (Nat.mod_lt _ (by decide)), hplace] at hbit
    exact hbit
  · rw [testBit_of_le w hi, testBit_of_le v hi]

/-! ## 2. Folding -/

/-- A state with its upper bits folded onto the lower ones. -/
def fold (state : UInt64) : UInt64 := (state >>> 18) ^^^ state

theorem output_eq (state : UInt64) :
    output state = rotateRight (fold state >>> 27).toUInt32 (state >>> 59).toUInt32 := rfl

theorem toNat_fold (state : UInt64) :
    (fold state).toNat = state.toNat >>> 18 ^^^ state.toNat := by
  unfold fold
  rw [UInt64.toNat_xor, UInt64.toNat_shiftRight]
  rfl

theorem testBit_fold (state : UInt64) (i : ℕ) :
    (fold state).toNat.testBit i = (state.toNat.testBit (18 + i) ^^ state.toNat.testBit i) := by
  rw [toNat_fold, Nat.testBit_xor, Nat.testBit_shiftRight]

/-- The bits are known from the top down: the top 18 are left as they are, and each of the others is
folded with one that is known already. -/
theorem fold_injective : Function.Injective fold := by
  intro s t heq
  have known : ∀ n i, 64 ≤ i + 18 * n → s.toNat.testBit i = t.toNat.testBit i := by
    intro n
    induction n with
    | zero =>
      intro i hi
      have hsmall : ∀ u : UInt64, u.toNat.testBit i = false := fun u =>
        Nat.testBit_lt_two_pow (u.toNat_lt.trans_le (Nat.pow_le_pow_right (by decide) hi))
      rw [hsmall, hsmall]
    | succ n ih =>
      intro i hi
      have hfold := congrArg (fun u : UInt64 => u.toNat.testBit i) heq
      simp only [testBit_fold, ih (18 + i) (by omega)] at hfold
      exact Bool.xor_right_inj.1 hfold
  exact UInt64.toNat_inj.1 (Nat.eq_of_testBit_eq fun i => known 4 i (by omega))

/-- The top five bits say how far to rotate, and folding leaves them. -/
theorem top_fold (state : UInt64) : (fold state).toNat / 2 ^ 59 = state.toNat / 2 ^ 59 := by
  have hgone : state.toNat >>> 18 >>> 59 = 0 := by
    rw [← Nat.shiftRight_add, Nat.shiftRight_eq_div_pow]
    exact Nat.div_eq_of_lt (state.toNat_lt.trans (by decide))
  rw [← Nat.shiftRight_eq_div_pow, ← Nat.shiftRight_eq_div_pow, toNat_fold,
    Nat.shiftRight_xor_distrib, hgone, Nat.zero_xor]

/-! ## 3. Readings -/

/-- What a state is known from: its top five bits, the word that it shows, and the 27 bits that are
cut off below the word. -/
def reading (state : UInt64) : Fin (2 ^ 5) × UInt32 × Fin (2 ^ 27) :=
  (⟨state.toNat / 2 ^ 59, by have := state.toNat_lt; omega⟩, output state,
    ⟨(fold state).toNat % 2 ^ 27, Nat.mod_lt _ (by decide)⟩)

theorem toNat_amount (state : UInt64) :
    (state >>> 59).toUInt32.toNat = state.toNat / 2 ^ 59 := by
  have hstate := state.toNat_lt
  have hplaces : (59 : UInt64).toNat % 64 = 59 := rfl
  rw [UInt64.toNat_toUInt32, UInt64.toNat_shiftRight, hplaces, Nat.shiftRight_eq_div_pow]
  omega

theorem toNat_middle (state : UInt64) :
    (fold state >>> 27).toUInt32.toNat = (fold state).toNat / 2 ^ 27 % 2 ^ 32 := by
  rw [UInt64.toNat_toUInt32, UInt64.toNat_shiftRight, Nat.shiftRight_eq_div_pow]
  rfl

/-- **A state is known from its reading.**  The top five bits tell the rotation; undoing it gives
the bits between the top and the rest, and so the folded state. -/
theorem reading_injective : Function.Injective reading := by
  intro s t heq
  have htop : s.toNat / 2 ^ 59 = t.toNat / 2 ^ 59 := congrArg (fun r => r.1.val) heq
  have hword : output s = output t := congrArg (fun r => r.2.1) heq
  have hlow : (fold s).toNat % 2 ^ 27 = (fold t).toNat % 2 ^ 27 :=
    congrArg (fun r => r.2.2.val) heq
  have hamount : (s >>> 59).toUInt32 = (t >>> 59).toUInt32 :=
    UInt32.toNat_inj.1 (by rw [toNat_amount, toNat_amount, htop])
  have hlt : (s >>> 59).toUInt32.toNat < 32 := by
    have hs := s.toNat_lt
    rw [toNat_amount]
    omega
  rw [output_eq, output_eq, ← hamount] at hword
  have hmiddle := congrArg UInt32.toNat (rotateRight_injective hlt hword)
  rw [toNat_middle, toNat_middle] at hmiddle
  rw [← top_fold s, ← top_fold t] at htop
  exact fold_injective (UInt64.toNat_inj.1 (by omega))

theorem natCard_uint32 : Nat.card UInt32 = 2 ^ 32 :=
  (Nat.card_congr FinEnum.equiv).trans (Nat.card_fin _)

theorem natCard_uint64 : Nat.card UInt64 = 2 ^ 64 :=
  (Nat.card_congr FinEnum.equiv).trans (Nat.card_fin _)

/-- There are as many states as readings. -/
theorem reading_bijective : Function.Bijective reading := by
  refine (Nat.bijective_iff_injective_and_card reading).2 ⟨reading_injective, ?_⟩
  rw [Nat.card_prod, Nat.card_prod, Nat.card_fin, Nat.card_fin, natCard_uint32, natCard_uint64]
  norm_num

/-- **The states that show one of some words are `2³²` for each word.** -/
theorem ncard_shows (words : Set UInt32) :
    {state | output state ∈ words}.ncard = 2 ^ 32 * words.ncard := by
  have hreadings : {state | output state ∈ words}
      = Set.preimage reading (Set.univ ×ˢ (words ×ˢ Set.univ)) := by
    ext state
    simp [reading]
  rw [hreadings, Set.ncard_preimage_of_injective_subset_range reading_injective
    (by rw [reading_bijective.surjective.range_eq]; exact Set.subset_univ _), Set.ncard_prod,
    Set.ncard_prod, Set.ncard_univ, Set.ncard_univ, Nat.card_fin, Nat.card_fin]
  ring

/-- Every word is shown by some state. -/
theorem exists_output (word : UInt32) : ∃ state, output state = word := by
  obtain ⟨state, hstate⟩ := reading_bijective.surjective (0, word, 0)
  exact ⟨state, congrArg (fun r => r.2.1) hstate⟩

/-! ## 4. Fractions -/

/-- The fraction that a generator draws next, in binary64. -/
theorem val_uniform (g : Generator) :
    Binary64.val (Draw.uniform g : Float × Generator).1
      = ((g.next.1.toNat / 2 ^ 32 : ℝ) : EReal) :=
  Binary64.val_fraction _

/-- One word is drawn for each fraction. -/
theorem val_uniform_eq_iff (g : Generator) (k : Fin (2 ^ 32)) :
    Binary64.val (Draw.uniform g : Float × Generator).1 = (((k : ℕ) / 2 ^ 32 : ℝ) : EReal)
      ↔ g.next.1 = UInt32.ofNat k := by
  have hk : (UInt32.ofNat k).toNat = k := UInt32.toNat_ofNat_of_lt' k.isLt
  rw [val_uniform, EReal.coe_eq_coe_iff, div_left_inj' (by positivity), Nat.cast_inj,
    ← UInt32.toNat_inj, hk]

/-- **Words and fractions are evenly spread over the states**, whatever the constant term.  A word is
below `2³²`, and each is the next word of `2³²` of the `2⁶⁴` states.  The fraction drawn, in binary64,
is below one; it is a multiple of `2⁻³²`, and each multiple from zero to below one is the fraction
drawn from `2³²` states. -/
theorem words_equidistributed (increment : UInt64) :
    (∀ state, (next ⟨state, increment⟩).1.toNat < 2 ^ 32) ∧
    (∀ word, {state | (next ⟨state, increment⟩).1 = word}.ncard = 2 ^ 32) ∧
    (∀ k : Fin (2 ^ 32), {state | Binary64.val
      (Draw.uniform ⟨state, increment⟩ : Float × Generator).1
        = (((k : ℕ) / 2 ^ 32 : ℝ) : EReal)}.ncard = 2 ^ 32) ∧
    ∀ state, (Draw.uniform ⟨state, increment⟩ : Float × Generator).1 < 1 ∧
      ∃ k : Fin (2 ^ 32), Binary64.val (Draw.uniform ⟨state, increment⟩ : Float × Generator).1
        = (((k : ℕ) / 2 ^ 32 : ℝ) : EReal) := by
  have hword : ∀ word, {state | (next ⟨state, increment⟩).1 = word}.ncard = 2 ^ 32 := by
    intro word
    have hshows := ncard_shows {word}
    rw [Set.ncard_singleton, mul_one] at hshows
    exact hshows
  refine ⟨fun state => UInt32.toNat_lt _, hword, fun k => ?_, fun state =>
    ⟨Binary64.fraction_lt_one _, ⟨(output state).toNat, UInt32.toNat_lt _⟩, val_uniform _⟩⟩
  simp only [val_uniform_eq_iff]
  exact hword _

end Generator

end LargeNeighbourhood
