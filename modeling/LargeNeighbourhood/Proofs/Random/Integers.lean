/-
# Integers between two bounds

An integer is drawn as the lower bound plus the remainder of a word by the number of integers there
are.  `Draw.integer` says so with integers of any size.  `FixedWidth` says it with words, each step
in a type of 32 or 64 bits: the bounds are exchanged if they stand the wrong way round, their
difference and the sum are signed words of 64 bits, the number of integers is an unsigned one, and
the result is cut down to 32 bits.  No step wraps, not even for the widest bounds, where the number of
integers is `2³²` (`unwrapped`); so the two are one (`toInt_integer`).

As many words leave one remainder as another, up to one word (`ncard_remainder`).  So an integer
comes of as many words as any other, up to one, and since every word is shown by some state, no
integer between the bounds is out of reach, and no pair of a scheme that draws pairs uniformly.
-/
import Mathlib
import LargeNeighbourhood.Proofs.Random.Permutations
import LargeNeighbourhood.Proofs.Random.Words
import LargeNeighbourhood.Selection.UniformChoice

namespace LargeNeighbourhood

/-! ## 1. The steps in words -/

namespace FixedWidth

section Steps

variable (a b : Int32)

/-- The lower bound, once the bounds stand in order. -/
def low : Int32 := if b < a then b else a

/-- The upper bound. -/
def high : Int32 := if b < a then a else b

/-- The difference of the bounds, a signed word. -/
def gap : Int64 := (high a b).toInt64 - (low a b).toInt64

/-- The number of integers between the bounds, an unsigned word. -/
def extent : UInt64 := (gap a b).toUInt64 + 1

/-- The remainder of a drawn word. -/
def remainder (word : UInt32) : UInt64 := word.toUInt64 % extent a b

/-- The lower bound and the remainder, added as signed words. -/
def total (word : UInt32) : Int64 := (low a b).toInt64 + (remainder a b word).toInt64

/-- The integer, cut down to 32 bits. -/
def integer (word : UInt32) : Int32 := (total a b word).toInt32

/-- No step wraps: every operation has the result that it has for integers of any size, and every
conversion keeps the value. -/
structure Unwrapped : Prop where
  difference : (gap a b).toInt = (high a b).toInt - (low a b).toInt
  unsigned : ((gap a b).toUInt64.toNat : ℤ) = (gap a b).toInt
  successor : (extent a b).toNat = (gap a b).toUInt64.toNat + 1
  division : ∀ word, (remainder a b word).toNat = word.toNat % (extent a b).toNat
  signed : ∀ word, (remainder a b word).toInt64.toInt = ((remainder a b word).toNat : ℤ)
  sum : ∀ word,
    (total a b word).toInt = (low a b).toInt + (remainder a b word).toInt64.toInt
  narrowing : ∀ word, (integer a b word).toInt = (total a b word).toInt

end Steps

variable (a b : Int32)

theorem toInt_low : (low a b).toInt = min a.toInt b.toInt := by
  unfold low
  split
  · rename_i h
    exact (min_eq_right (Int32.lt_iff_toInt_lt.1 h).le).symm
  · rename_i h
    exact (min_eq_left (not_lt.1 fun hlt => h (Int32.lt_iff_toInt_lt.2 hlt))).symm

theorem toInt_high : (high a b).toInt = max a.toInt b.toInt := by
  unfold high
  split
  · rename_i h
    exact (max_eq_left (Int32.lt_iff_toInt_lt.1 h).le).symm
  · rename_i h
    exact (max_eq_right (not_lt.1 fun hlt => h (Int32.lt_iff_toInt_lt.2 hlt))).symm

theorem bmod_of_bounds {n : ℤ} (hlow : -2 ^ 63 ≤ n) (hhigh : n < 2 ^ 63) :
    n.bmod (2 ^ 64) = n :=
  Int.bmod_eq_of_le (by norm_num; omega) (by norm_num; omega)

theorem toInt_toInt64 {n : UInt64} (h : n.toNat < 2 ^ 63) : n.toInt64.toInt = (n.toNat : ℤ) := by
  have hword : n.toInt64 = Int64.ofNat n.toNat := by
    rw [← UInt64.toInt64_ofNat', UInt64.ofNat_toNat]
  rw [hword, Int64.toInt_ofNat_of_lt h]

/-! ## 2. No step wraps -/

theorem low_le_high : (low a b).toInt ≤ (high a b).toInt := by
  rw [toInt_low, toInt_high]
  exact min_le_max

/-- The bounds lie between `-2³¹` and `2³¹`, so their difference is not negative and below `2³²`. -/
theorem toInt_gap : (gap a b).toInt = (high a b).toInt - (low a b).toInt := by
  have hlow := (low a b).le_toInt
  have hhigh := (high a b).toInt_lt
  have horder := low_le_high a b
  rw [gap, Int64.toInt_sub, Int32.toInt_toInt64, Int32.toInt_toInt64]
  exact bmod_of_bounds (by omega) (by omega)

theorem toNat_gap : ((gap a b).toUInt64.toNat : ℤ) = (gap a b).toInt := by
  have horder := low_le_high a b
  have hgap := toInt_gap a b
  have hnonneg : 0 ≤ gap a b := by
    rw [Int64.le_iff_toInt_le, Int64.toInt_zero]
    omega
  rw [Int64.toNat_toUInt64_of_le hnonneg]
  exact Int.toNat_of_nonneg (by omega)

/-- The number of integers is at most `2³²`. -/
theorem toNat_extent : (extent a b).toNat = (gap a b).toUInt64.toNat + 1 := by
  have hlow := (low a b).le_toInt
  have hhigh := (high a b).toInt_lt
  have hgap := toInt_gap a b
  have hnat := toNat_gap a b
  rw [extent, UInt64.toNat_add, UInt64.toNat_one]
  exact Nat.mod_eq_of_lt (by omega)

theorem extent_eq : (extent a b).toNat = Draw.span a.toInt b.toInt := by
  have hgap := toInt_gap a b
  have hnat := toNat_gap a b
  have hextent := toNat_extent a b
  rw [toInt_low, toInt_high] at hgap
  unfold Draw.span
  omega

variable (word : UInt32)

theorem toNat_remainder : (remainder a b word).toNat = word.toNat % (extent a b).toNat :=
  UInt64.toNat_mod _ _

/-- The remainder leads from the lower bound no further than to the upper one. -/
theorem low_add_remainder_le :
    (low a b).toInt + ((remainder a b word).toNat : ℤ) ≤ (high a b).toInt := by
  have hgap := toInt_gap a b
  have hnat := toNat_gap a b
  have hextent := toNat_extent a b
  have hlt : word.toNat % (extent a b).toNat < (extent a b).toNat := Nat.mod_lt _ (by omega)
  rw [toNat_remainder]
  omega

theorem toInt_remainder :
    (remainder a b word).toInt64.toInt = ((remainder a b word).toNat : ℤ) := by
  have hlow := (low a b).le_toInt
  have hhigh := (high a b).toInt_lt
  have hle := low_add_remainder_le a b word
  exact toInt_toInt64 (by omega)

theorem toInt_total :
    (total a b word).toInt = (low a b).toInt + (remainder a b word).toInt64.toInt := by
  have hlow := (low a b).le_toInt
  have hhigh := (high a b).toInt_lt
  have hle := low_add_remainder_le a b word
  rw [total, Int64.toInt_add, Int32.toInt_toInt64, toInt_remainder]
  exact bmod_of_bounds (by omega) (by omega)

theorem toInt_narrowed : (integer a b word).toInt = (total a b word).toInt := by
  have hlow := (low a b).le_toInt
  have hhigh := (high a b).toInt_lt
  have hle := low_add_remainder_le a b word
  have htotal := toInt_total a b word
  rw [toInt_remainder] at htotal
  rw [integer, Int64.toInt_toInt32]
  exact Int.bmod_eq_of_le (by norm_num; omega) (by norm_num; omega)

/-- **No step wraps**, whatever the bounds and the word. -/
theorem unwrapped : Unwrapped a b where
  difference := toInt_gap a b
  unsigned := toNat_gap a b
  successor := toNat_extent a b
  division := toNat_remainder a b
  signed := toInt_remainder a b
  sum := toInt_total a b
  narrowing := toInt_narrowed a b

/-- **In words and without them, it is the same integer.** -/
theorem toInt_integer :
    (integer a b word).toInt = min a.toInt b.toInt
      + ((word.toNat % Draw.span a.toInt b.toInt : ℕ) : ℤ) := by
  rw [toInt_narrowed, toInt_total, toInt_remainder, toNat_remainder, extent_eq, toInt_low]

end FixedWidth

/-! ## 3. Words with one remainder -/

/-- As many words leave one remainder as another, up to one word. -/
theorem ncard_remainder {r k : ℕ} (hr : 0 < r) (hk : k < r) :
    {word : UInt32 | word.toNat % r = k}.ncard
      = 2 ^ 32 / r + if k < 2 ^ 32 % r then 1 else 0 := by
  have himage : UInt32.toNat '' {word : UInt32 | word.toNat % r = k}
      = ↑((Finset.range (2 ^ 32)).filter (· ≡ k [MOD r])) := by
    ext n
    simp only [Set.mem_image, Set.mem_ofPred_eq, Finset.coe_filter, Finset.mem_range, Nat.ModEq,
      Nat.mod_eq_of_lt hk]
    constructor
    · rintro ⟨word, hword, rfl⟩
      exact ⟨word.toNat_lt, hword⟩
    · rintro ⟨hlt, hmod⟩
      exact ⟨UInt32.ofNat n, by rwa [UInt32.toNat_ofNat_of_lt' hlt],
        UInt32.toNat_ofNat_of_lt' hlt⟩
  rw [← Set.ncard_image_of_injective _ (fun _ _ h => UInt32.toNat_inj.1 h), himage,
    Set.ncard_coe_finset, ← Nat.count_eq_card_filter_range, Nat.count_modEq_card _ hr,
    Nat.mod_eq_of_lt hk]

/-! ## 4. Integers -/

namespace Draw

theorem span_pos (a b : ℤ) : 0 < span a b := by
  unfold span
  omega

theorem integer_comm (a b : ℤ) : integer a b = integer b a := by
  unfold integer span
  rw [min_comm, max_comm]

/-- An integer lies between its bounds. -/
theorem integer_mem (a b : ℤ) (g : Generator) :
    min a b ≤ (integer a b g).1 ∧ (integer a b g).1 ≤ max a b := by
  have hlt := Nat.mod_lt g.next.1.toNat (span_pos a b)
  rw [integer_apply]
  unfold span at hlt ⊢
  simp only
  omega

/-- An integer between the bounds is drawn from some state, unless there are more integers than
words. -/
theorem exists_integer_eq {a b v : ℤ} (hlow : min a b ≤ v) (hhigh : v ≤ max a b)
    (hwords : v - min a b < 2 ^ 32) (increment : UInt64) :
    ∃ state, (integer a b ⟨state, increment⟩).1 = v := by
  obtain ⟨state, hstate⟩ := Generator.exists_output (UInt32.ofNat (v - min a b).toNat)
  have hword : (Generator.output state).toNat = (v - min a b).toNat := by
    rw [hstate]
    exact UInt32.toNat_ofNat_of_lt' (by simp only [UInt32.size]; omega)
  have hspan : (v - min a b).toNat < span a b := by
    unfold span
    omega
  refine ⟨state, ?_⟩
  show min a b + (((Generator.output state).toNat % span a b : ℕ) : ℤ) = v
  rw [hword, Nat.mod_eq_of_lt hspan]
  omega

end Draw

/-- The words that an integer comes of are those with one remainder. -/
theorem FixedWidth.setOf_integer_eq {a b : Int32} {v : ℤ} (hlow : min a.toInt b.toInt ≤ v) :
    {word : UInt32 | (integer a b word).toInt = v}
      = {word : UInt32 |
          word.toNat % Draw.span a.toInt b.toInt = (v - min a.toInt b.toInt).toNat} := by
  ext word
  simp only [Set.mem_ofPred_eq, toInt_integer]
  omega

/-! ## 5. Pairs -/

/-- A scheme that draws pairs uniformly draws the number of a legal pair. -/
theorem UniformChoice.getElem?_draw (s : UniformChoice) (g : Generator) :
    s.coupling.legalPairs[(Draw.integer 0 (s.coupling.legalPairs.length - 1) g).1.toNat]?
      = some (s.draw g : (ℕ × ℕ) × Generator).1 := by
  have hsize : s.table.size = s.coupling.legalPairs.length := by
    rw [PairTable.size, s.table.pairs_eq, List.size_toArray]
    rfl
  have hspan : Draw.span 0 (s.coupling.legalPairs.length - 1) = s.table.size := by
    have := s.table.size_pos
    unfold Draw.span
    omega
  have hindex : (Draw.integer 0 (s.coupling.legalPairs.length - 1) g).1.toNat
      = g.next.1.toNat % s.table.size := by
    have := s.table.size_pos
    rw [Draw.integer_apply, hspan]
    simp only
    omega
  have hpairs : s.coupling.legalPairs[g.next.1.toNat % s.table.size]?
      = s.table.pairs[g.next.1.toNat % s.table.size]? := by
    rw [s.table.pairs_eq, List.getElem?_toArray]
    rfl
  rw [hindex, hpairs]
  exact Array.getElem?_eq_getElem (Nat.mod_lt _ s.table.size_pos)

/-- **Integers are in range, exact, and as even as 32 bits allow.**  Drawing an integer between two
bounds of 32 bits wraps in no step; the result lies between the bounds and does not depend on their
order; and of the `2³²` words, as many as the number of integers goes into `2³²`, or one more, lead to
each of the integers, so each is drawn from some state, whatever the constant term.  So is each legal
pair of a scheme that draws pairs uniformly, if the numbers of the pairs have 32 bits. -/
theorem integers_even :
    (∀ a b : Int32,
      let lo := min a.toInt b.toInt
      let hi := max a.toInt b.toInt
      let range := (hi - lo + 1).toNat
      FixedWidth.Unwrapped a b ∧
      (∀ g, Draw.integer a.toInt b.toInt g
        = ((FixedWidth.integer a b g.next.1).toInt, g.next.2)) ∧
      (∀ g, lo ≤ (Draw.integer a.toInt b.toInt g).1 ∧
        (Draw.integer a.toInt b.toInt g).1 ≤ hi) ∧
      (∀ g, Draw.integer a.toInt b.toInt g = Draw.integer b.toInt a.toInt g) ∧
      ∀ v, lo ≤ v → v ≤ hi →
        ({word | (FixedWidth.integer a b word).toInt = v}.ncard = 2 ^ 32 / range ∨
          {word | (FixedWidth.integer a b word).toInt = v}.ncard = 2 ^ 32 / range + 1) ∧
        ∀ increment, ∃ state, (Draw.integer a.toInt b.toInt ⟨state, increment⟩).1 = v) ∧
    ∀ s : UniformChoice, s.coupling.legalPairs.length ≤ 2 ^ 31 - 1 →
      ∀ p ∈ s.coupling.legalPairs, ∀ increment,
        ∃ state, (s.draw ⟨state, increment⟩ : (ℕ × ℕ) × Generator).1 = p := by
  refine ⟨fun a b => ?_, fun s hsize p hp increment => ?_⟩
  · intro lo hi range
    refine ⟨FixedWidth.unwrapped a b, fun g => ?_, Draw.integer_mem _ _,
      fun g => by rw [Draw.integer_comm], fun v hlow hhigh => ⟨?_, fun increment => ?_⟩⟩
    · rw [Draw.integer_apply, FixedWidth.toInt_integer]
    · have hremainder : (v - lo).toNat < Draw.span a.toInt b.toInt := by
        unfold Draw.span
        omega
      rw [FixedWidth.setOf_integer_eq hlow,
        ncard_remainder (Draw.span_pos _ _) hremainder]
      split
      · exact .inr rfl
      · exact .inl rfl
    · have ha := a.le_toInt
      have hb := b.le_toInt
      have ha' := a.toInt_lt
      have hb' := b.toInt_lt
      exact Draw.exists_integer_eq hlow hhigh (by omega) increment
  · obtain ⟨i, hi, rfl⟩ := List.mem_iff_getElem.1 hp
    obtain ⟨state, hstate⟩ := Draw.exists_integer_eq (a := 0)
      (b := s.coupling.legalPairs.length - 1) (v := i) (by omega) (by omega) (by omega) increment
    have hdraw := s.getElem?_draw ⟨state, increment⟩
    rw [hstate, Int.toNat_natCast, List.getElem?_eq_getElem hi] at hdraw
    exact ⟨state, (Option.some_inj.1 hdraw).symm⟩

/-- Between the widest bounds `-1` comes of one word or two, and the second of two pairs is drawn from
some state. -/
theorem integers_even_widest :
    let a := Int32.minValue
    let b := Int32.maxValue
    let s : UniformChoice := ⟨.ofCoupling (Coupling.all 1 2) ⟨by decide, by decide, by decide⟩⟩
    (min a.toInt b.toInt ≤ -1 ∧ -1 ≤ max a.toInt b.toInt ∧
      ({word | (FixedWidth.integer a b word).toInt = -1}.ncard = 1 ∨
        {word | (FixedWidth.integer a b word).toInt = -1}.ncard = 2) ∧
      ∃ state, (Draw.integer a.toInt b.toInt ⟨state, 1⟩).1 = -1) ∧
    s.coupling.legalPairs.length ≤ 2 ^ 31 - 1 ∧ (0, 1) ∈ s.coupling.legalPairs ∧
    ∃ state, (s.draw ⟨state, 1⟩ : (ℕ × ℕ) × Generator).1 = (0, 1) := by
  intro a b s
  have hlow : min a.toInt b.toInt ≤ -1 := by decide
  have hhigh : -1 ≤ max a.toInt b.toInt := by decide
  have hsize : s.coupling.legalPairs.length ≤ 2 ^ 31 - 1 := by decide
  have hpair : (0, 1) ∈ s.coupling.legalPairs := by decide
  obtain ⟨-, -, -, -, heven⟩ := integers_even.1 a b
  obtain ⟨hwords, hstate⟩ := heven (-1) hlow hhigh
  have hrange : (max a.toInt b.toInt - min a.toInt b.toInt + 1).toNat = 2 ^ 32 := by decide
  rw [hrange, Nat.div_self (by decide)] at hwords
  exact ⟨⟨hlow, hhigh, hwords, hstate 1⟩, hsize, hpair, integers_even.2 s hsize (0, 1) hpair 1⟩

end LargeNeighbourhood
