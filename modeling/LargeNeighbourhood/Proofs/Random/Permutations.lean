/-
# Every rearrangement has one sequence of indices

A shuffle draws one index for each position but the first, none beyond its position
(`Draw.Admissible`), and exchanges entries as the indices say (`Draw.arrange`).  If the entries
differ, every rearrangement comes of exactly one sequence of indices (`existsUnique_arrange`).  The
first index is known from the entry that the rearrangement has at the last position, since that
position is not touched again; after its exchange the same is true of the positions before it.

So the shuffles of `n` numbers and their sequences of indices are in bijection, and a shuffle is as
even as its indices are (`permutation_one_of_all`).
-/
import Mathlib
import LargeNeighbourhood.Proofs.Random.Draws
import LargeNeighbourhood.Proofs.Random.Period
import LargeNeighbourhood.Proofs.Random.Shuffle

namespace LargeNeighbourhood

open Nat

/-! ## 1. The words of a shuffle -/

/-- The generator after `n` words. -/
def Generator.skip : Generator → ℕ → Generator
  | g, 0 => g
  | g, n + 1 => g.next.2.skip n

theorem Generator.skip_succ (g : Generator) (n : ℕ) : g.skip (n + 1) = g.next.2.skip n := rfl

theorem Generator.skip_eq (g : Generator) (n : ℕ) : g.skip n = ⟨g.stateAfter n, g.increment⟩ := by
  induction n generalizing g with
  | zero => rfl
  | succ n ih =>
    rw [skip_succ, ih, next_increment, stateAfter, ← Function.iterate_succ_apply, ← stateAfter]

namespace Draw

/-- A draw after a draw. -/
theorem bind_apply {α β : Type} (d : Draw α) (next : α → Draw β) (g : Generator) :
    (d >>= next) g = next (d g : α × Generator).1 (d g : α × Generator).2 := rfl

theorem below_apply (n : ℕ) (h : 0 < n) (g : Generator) :
    below n h g = (⟨g.next.1.toNat % n, Nat.mod_lt _ h⟩, g.next.2) := rfl

theorem integer_apply (a b : ℤ) (g : Generator) :
    integer a b g = (min a b + ((g.next.1.toNat % span a b : ℕ) : ℤ), g.next.2) := rfl

theorem swapIndices_succ (n : ℕ) (g : Generator) :
    swapIndices (n + 1) g
      = (g.next.1.toNat % (n + 2) :: (swapIndices n g.next.2).1, (swapIndices n g.next.2).2) := by
  rw [swapIndices, bind_apply, below_apply]
  rfl

/-- The index for each position is an integer between zero and the position, drawn with the next
word. -/
theorem swapIndices_eq (n : ℕ) (g : Generator) :
    swapIndices n g =
      ((List.range n).map fun i => (integer 0 (n - i : ℕ) (g.skip i)).1.toNat, g.skip n) := by
  induction n generalizing g with
  | zero => rfl
  | succ n ih =>
    have hspan : span 0 (n + 1 : ℕ) = n + 2 := by
      unfold span
      omega
    have hindex : (integer 0 (n + 1 : ℕ) g).1.toNat = g.next.1.toNat % (n + 2) := by
      rw [integer_apply, hspan]
      simp only
      omega
    rw [swapIndices_succ, ih, List.range_succ_eq_map, List.map_cons, List.map_map,
      Generator.skip, Nat.sub_zero, hindex, Generator.skip_succ]
    simp only [Function.comp_def, Nat.succ_eq_add_one, Nat.add_sub_add_right, Generator.skip_succ]

/-! ## 2. Sequences of indices -/

/-- One index for each of the positions from `n` down to one, none beyond its position. -/
def Admissible (n : ℕ) (js : List ℕ) : Prop :=
  js.length = n ∧ ∀ i, (h : i < js.length) → js[i] ≤ n - i

theorem admissible_zero {js : List ℕ} : Admissible 0 js ↔ js = [] := by
  constructor
  · rintro ⟨hlength, -⟩
    exact List.length_eq_zero_iff.1 hlength
  · rintro rfl
    exact ⟨rfl, fun i h => absurd h (Nat.not_lt_zero i)⟩

theorem admissible_cons {n j : ℕ} {js : List ℕ} :
    Admissible (n + 1) (j :: js) ↔ j ≤ n + 1 ∧ Admissible n js := by
  constructor
  · rintro ⟨hlength, hle⟩
    refine ⟨hle 0 (Nat.succ_pos _), Nat.succ_injective hlength, fun i h => ?_⟩
    have := hle (i + 1) (Nat.succ_lt_succ h)
    rwa [List.getElem_cons_succ, Nat.add_sub_add_right] at this
  · rintro ⟨hj, hlength, hle⟩
    refine ⟨congrArg Nat.succ hlength, fun i h => ?_⟩
    cases i with
    | zero => exact hj
    | succ i =>
      rw [List.getElem_cons_succ, Nat.add_sub_add_right]
      exact hle i (Nat.lt_of_succ_lt_succ h)

theorem admissible_swapIndices (n : ℕ) (g : Generator) : Admissible n (swapIndices n g).1 := by
  induction n generalizing g with
  | zero => exact admissible_zero.2 rfl
  | succ n ih =>
    rw [swapIndices_succ]
    exact admissible_cons.2 ⟨Nat.le_of_lt_succ (Nat.mod_lt _ (Nat.succ_pos _)), ih g.next.2⟩

/-! ## 3. Exchanges -/

variable {α : Type} {xs ys : Array α} {n j : ℕ} {js : List ℕ}

/-- The exchange for position `n` puts the entry at the index there ... -/
theorem getElem?_exchange_self (hn : n < xs.size) (hj : j ≤ n) :
    (xs.swapIfInBounds n j)[n]? = xs[j]? := by
  have hjs : j < xs.size := hj.trans_lt hn
  rw [Array.swapIfInBounds_def, dif_pos hn, dif_pos hjs, Array.getElem?_swap,
    Array.getElem?_eq_getElem hjs]
  split
  · rename_i heq
    simp only [heq]
  · rw [if_pos rfl]

/-- ... and leaves the positions behind it alone. -/
theorem getElem?_exchange_of_lt {i : ℕ} (hj : j ≤ n) (hi : n < i) :
    (xs.swapIfInBounds n j)[i]? = xs[i]? := by
  rw [Array.swapIfInBounds_def]
  split
  · split
    · rw [Array.getElem?_swap, if_neg (by omega), if_neg (by omega)]
    · rfl
  · rfl

/-- Exchanges leave what stands behind the last position alone. -/
theorem getElem?_arrange_of_lt (hjs : Admissible n js) {i : ℕ} (hi : n < i) :
    (arrange n js xs)[i]? = xs[i]? := by
  induction n generalizing js xs with
  | zero => rfl
  | succ n ih =>
    cases js with
    | nil => rfl
    | cons j js =>
      obtain ⟨hj, hjs⟩ := admissible_cons.1 hjs
      rw [arrange, ih hjs (by omega), getElem?_exchange_of_lt hj hi]

/-- A rearrangement that differs at most at the first entry does not differ. -/
theorem eq_of_perm_of_agree (hperm : ys.Perm xs) (hrest : ∀ i, 0 < i → ys[i]? = xs[i]?) :
    ys = xs := by
  obtain ⟨xs⟩ := xs
  obtain ⟨ys⟩ := ys
  have hlist : ys.Perm xs := hperm.toList
  cases ys with
  | nil => rw [List.nil_perm.1 hlist]
  | cons y ys =>
    cases xs with
    | nil => exact absurd hlist (by simp)
    | cons x xs =>
      have htail : ys = xs := List.ext_getElem? fun i => by simpa using hrest (i + 1) i.succ_pos
      rw [htail] at hlist ⊢
      have hhead : [y].Perm [x] := (List.perm_append_right_iff xs).1 hlist
      rw [List.singleton_perm_singleton.1 hhead]

/-- Where the entries differ, an entry is at one position only. -/
theorem eq_of_getElem?_eq {i : ℕ} (hnodup : xs.toList.Nodup) (hi : i < xs.size)
    (h : xs[i]? = xs[j]?) : i = j := by
  rw [← Array.getElem?_toList, ← Array.getElem?_toList] at h
  exact (List.getElem?_inj hi hnodup).1 h

/-- The entry that a rearrangement has at position `n` stood at that position or before it, if what
stands behind it stayed there. -/
theorem exists_getElem?_eq (hn : n < xs.size) (hnodup : xs.toList.Nodup) (hperm : ys.Perm xs)
    (hrest : ∀ i, n < i → ys[i]? = xs[i]?) : ∃ j, j ≤ n ∧ xs[j]? = ys[n]? := by
  have hsize : n < ys.size := by rwa [hperm.size_eq]
  have hmem : ys[n] ∈ xs := hperm.mem_iff.1 (Array.getElem_mem hsize)
  obtain ⟨j, hj⟩ := Array.getElem?_of_mem hmem
  rw [← Array.getElem?_eq_getElem hsize] at hj
  refine ⟨j, not_lt.1 fun hlt => ?_, hj⟩
  rw [← hrest j hlt] at hj
  have heq : n = j := eq_of_getElem?_eq (hperm.toList.nodup_iff.2 hnodup) hsize hj.symm
  exact absurd heq hlt.ne

/-- **Every rearrangement comes of one sequence of indices.**  If the entries of an array differ,
and a rearrangement leaves what stands behind position `n` where it is, then the exchanges for the
positions from `n` down lead to it with exactly one sequence of indices. -/
theorem existsUnique_arrange (hsize : n ≤ xs.size - 1) (hnodup : xs.toList.Nodup)
    (hperm : ys.Perm xs) (hrest : ∀ i, n < i → ys[i]? = xs[i]?) :
    ∃! js, Admissible n js ∧ arrange n js xs = ys := by
  induction n generalizing xs with
  | zero =>
    have hsame : ys = xs := eq_of_perm_of_agree hperm hrest
    exact ⟨[], ⟨admissible_zero.2 rfl, hsame.symm⟩, fun js h => admissible_zero.1 h.1⟩
  | succ n ih =>
    have hn : n + 1 < xs.size := by omega
    obtain ⟨j, hj, hentry⟩ := exists_getElem?_eq hn hnodup hperm hrest
    have hbehind : ∀ i, n < i → ys[i]? = (xs.swapIfInBounds (n + 1) j)[i]? := by
      intro i hi
      rcases Nat.lt_or_eq_of_le (Nat.succ_le_of_lt hi) with hlt | rfl
      · rw [getElem?_exchange_of_lt hj hlt, hrest i hlt]
      · rw [getElem?_exchange_self hn hj, hentry]
    have hswap := swapIfInBounds_perm xs (n + 1) j
    obtain ⟨js, ⟨hjs, harrange⟩, hunique⟩ := ih
      (by rw [Array.size_swapIfInBounds]; omega) (hswap.toList.nodup_iff.2 hnodup)
      (hperm.trans hswap.symm) hbehind
    refine ⟨j :: js, ⟨admissible_cons.2 ⟨hj, hjs⟩, harrange⟩, fun ks ⟨hks, hkarrange⟩ => ?_⟩
    cases ks with
    | nil => exact absurd hks.1 (by simp)
    | cons k ks =>
      obtain ⟨hk, hks⟩ := admissible_cons.1 hks
      rw [arrange] at hkarrange
      -- what comes to position `n + 1` stays there, so it tells the first index
      have hlast : ys[n + 1]? = xs[k]? := by
        rw [← hkarrange, getElem?_arrange_of_lt hks n.lt_succ_self, getElem?_exchange_self hn hk]
      have hsame : k = j := eq_of_getElem?_eq hnodup (by omega) (hlast.symm.trans hentry.symm)
      rw [hsame] at hkarrange ⊢
      rw [hunique ks ⟨hks, hkarrange⟩]

/-- The order that a sequence of indices brings the numbers below `n` into. -/
def order (n : ℕ) (js : List ℕ) : List ℕ := (arrange (n - 1) js (Array.range n)).toList

/-- Every order of the numbers below `n` comes of one sequence of indices. -/
theorem bijOn_order (n : ℕ) :
    Set.BijOn (order n) {js | Admissible (n - 1) js} {l | l.Perm (List.range n)} := by
  have hsize : n - 1 ≤ (Array.range n).size - 1 := by rw [Array.size_range]
  have hnodup : (Array.range n).toList.Nodup := by
    rw [Array.toList_range]
    exact List.nodup_range
  have hbehind : ∀ {ys : Array ℕ}, ys.Perm (Array.range n) →
      ∀ i, n - 1 < i → ys[i]? = (Array.range n)[i]? := by
    intro ys hperm i hi
    have hrange : (Array.range n).size ≤ i := by
      rw [Array.size_range]
      omega
    rw [Array.getElem?_eq_none hrange, Array.getElem?_eq_none (hperm.size_eq ▸ hrange)]
  refine ⟨fun js _ => ?_, fun js hjs ks hks heq => ?_, fun l hl => ?_⟩
  · have hperm := (arrange_perm (n - 1) js (Array.range n)).toList
    rw [Array.toList_range] at hperm
    exact hperm
  · have hperm := arrange_perm (n - 1) js (Array.range n)
    exact (existsUnique_arrange hsize hnodup hperm (hbehind hperm)).unique ⟨hjs, rfl⟩
      ⟨hks, (Array.toList_inj.1 heq).symm⟩
  · have hperm : l.toArray.Perm (Array.range n) := by
      rw [Array.perm_iff_toList_perm, Array.toList_range]
      exact hl
    obtain ⟨js, ⟨hjs, harrange⟩, -⟩ := existsUnique_arrange hsize hnodup hperm (hbehind hperm)
    exact ⟨js, hjs, congrArg Array.toList harrange⟩

/-- There are `n!` rearrangements of the numbers below `n`. -/
theorem ncard_rearrangements (n : ℕ) : {l : List ℕ | l.Perm (List.range n)}.ncard = n ! := by
  have hset : {l : List ℕ | l.Perm (List.range n)} = (List.range n).permutations.toFinset := by
    ext l
    simp
  rw [hset, Set.ncard_coe_finset, List.toFinset_card_of_nodup
    (List.nodup_permutations _ List.nodup_range), List.length_permutations, List.length_range]

end Draw

/-! ## 4. Permutations and samples -/

/-- A shuffle draws a word for each position but the first, and applies the exchanges. -/
theorem Draw.shuffle_eq (n : ℕ) (g : Generator) :
    shuffle n g = (arrange (n - 1) (swapIndices (n - 1) g).1 (Array.range n), g.skip (n - 1)) := by
  have hwords : (swapIndices (n - 1) g).2 = g.skip (n - 1) := by rw [swapIndices_eq]
  rw [shuffle, shuffleFrom_eq, ← hwords]
  rfl

namespace Sampling

variable {K : Type}

theorem permutation_eq (n : ℕ) (g : Generator) :
    (permutation n : Sampling K (Array ℕ)) g
      = (.ok (Draw.arrange (n - 1) (Draw.swapIndices (n - 1) g).1 (Array.range n)),
        g.skip (n - 1)) := by
  have hnonneg : ¬(n : ℤ) < 0 := by omega
  have hlifted : (Draw.shuffle n : Sampling K (Array ℕ)) g
      = (.ok (Draw.shuffle n g).1, (Draw.shuffle n g).2) := rfl
  rw [permutation, if_neg hnonneg, Int.toNat_natCast, hlifted, Draw.shuffle_eq]

/-- A sample is the front of a permutation. -/
theorem choice_eq (n k : ℕ) (g : Generator) :
    (choice n k : Sampling K (Array ℕ)) g
      = (.ok ((Draw.arrange (n - 1) (Draw.swapIndices (n - 1) g).1 (Array.range n)).take (min k n)),
        g.skip (n - 1)) := by
  have hnonneg : ¬min (k : ℤ) n < 0 := by omega
  have hcut : (min (k : ℤ) n).toNat = min k n := by omega
  rw [choice, bind_apply, permutation_eq]
  simp only [if_neg hnonneg, hcut]
  rfl

/-- **A sample of entries** is read at the positions of a sample of numbers, and from the same words;
no position is outside, so nothing is lost. -/
theorem exists_positions {α : Type} (k : ℕ) (xs : Array α) (g : Generator) :
    ∃ positions : Array ℕ,
      (choice xs.size (min k xs.size : ℕ) : Sampling K (Array ℕ)) g
        = (.ok positions, (Draw.subset k xs g).2) ∧
      positions.size = min k xs.size ∧ positions.toList.Nodup ∧
      (∀ j ∈ positions.toList, j < xs.size) ∧
      (Draw.subset k xs g).1.map some = positions.toList.map (xs[·]?) := by
  obtain ⟨hsize, hnodup, hlt⟩ := Draw.front_shuffle k xs.size g
  refine ⟨(Draw.shuffle xs.size g).1.take k, ?_, hsize, hnodup, hlt, ?_⟩
  · have hwords : (Draw.subset k xs g).2 = (Draw.shuffle xs.size g).2 := rfl
    have hall : (Draw.shuffle xs.size g).1.size = xs.size :=
      (Draw.shuffle_perm xs.size g).length_eq.trans List.length_range
    have hcut : (Draw.shuffle xs.size g).1.take (min k xs.size)
        = (Draw.shuffle xs.size g).1.take k := by
      refine Array.ext' ?_
      simp [List.take_eq_take_iff, hall]
    rw [choice_eq, min_assoc, min_self, hwords, ← hcut, Draw.shuffle_eq]
  · have hread : (Draw.subset k xs g).1
        = ((Draw.shuffle xs.size g).1.take k).toList.filterMap fun i => xs[i]? := rfl
    -- the filter would drop a position outside, and there is none
    rw [hread, List.map_filterMap_some_eq_filter_map_isSome, List.filter_eq_self]
    intro a ha
    obtain ⟨j, hj, rfl⟩ := List.mem_map.1 ha
    rw [Array.getElem?_eq_getElem (hlt j hj)]
    rfl

/-- **A permutation is one of all rearrangements, and a sample is its front.**  Sequences of indices
and rearrangements of the numbers below `n` are in bijection, and there are `n!` of them.  The indices
of a permutation are drawn one after the other, each between zero and its position, and nothing else
is drawn.  A sample has the first entries of the permutation that would come of the same generator,
and leaves the generator where that would, whatever the size of the sample. -/
theorem permutation_one_of_all (K : Type) (n : ℕ) :
    Set.BijOn (Draw.order n) {js | Draw.Admissible (n - 1) js} {l | l.Perm (List.range n)} ∧
    {l : List ℕ | l.Perm (List.range n)}.ncard = n ! ∧
    ∀ g : Generator, ∃ js p,
      js = (List.range (n - 1)).map
        (fun i => (Draw.integer 0 (n - 1 - i : ℕ) (g.skip i)).1.toNat) ∧
      Draw.Admissible (n - 1) js ∧
      (permutation n : Sampling K (Array ℕ)) g = (.ok p, g.skip (n - 1)) ∧
      p.toList = Draw.order n js ∧ p.toList.Perm (List.range n) ∧
      ∀ k : ℕ, ∃ q, (choice n k : Sampling K (Array ℕ)) g = (.ok q, g.skip (n - 1)) ∧
        q.toList = p.toList.take (min k n) ∧ q.size = min k n ∧ q.toList.Nodup ∧
        ∀ x ∈ q.toList, x < n := by
  refine ⟨Draw.bijOn_order n, Draw.ncard_rearrangements n, fun g => ?_⟩
  have hadmissible := Draw.admissible_swapIndices (n - 1) g
  have hperm := (Draw.bijOn_order n).mapsTo hadmissible
  refine ⟨_, _, by rw [Draw.swapIndices_eq], hadmissible, permutation_eq n g, rfl, hperm,
    fun k => ⟨_, choice_eq n k g, ?_⟩⟩
  have hfront : ((Draw.arrange (n - 1) (Draw.swapIndices (n - 1) g).1 (Array.range n)).take
      (min k n)).toList = (Draw.order n (Draw.swapIndices (n - 1) g).1).take (min k n) := by
    simp [Draw.order]
  rw [← Array.length_toList, hfront]
  refine ⟨rfl, ?_, ?_, fun x hx => ?_⟩
  · rw [List.length_take, hperm.length_eq, List.length_range, min_assoc, min_self]
  · exact (hperm.nodup_iff.2 List.nodup_range).sublist (List.take_sublist _ _)
  · exact List.mem_range.1 (hperm.mem_iff.1 (List.mem_of_mem_take hx))

/-- The indices zero and zero turn three numbers round. -/
example : Draw.order 3 [0, 0] = [1, 2, 0] := by decide

end Sampling

end LargeNeighbourhood
