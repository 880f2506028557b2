/-
# Scans for the greatest value

The confidence bound and the epsilon-greedy policy choose by going through their arms once.  Each
of the two scans remembers the greatest value so far and where it stood, and changes its mind only
for a greater one.  So what it ends with is the greatest value, at the first position at which it
stands (`FirstGreatest`); the proof carries this along the scan, one more value at a time.

Along the legal pairs, which are listed row by row, that position is the place of one pair: the
greatest by its value, and of equal ones the earliest (`Coupling.Foremost`).
-/
import Mathlib
import LargeNeighbourhood.Proofs.Selection.Legality

namespace LargeNeighbourhood

/-! ## 1. The first greatest value -/

section Scans

variable {K : Type} [LinearOrder K] {values : List K} {k : Nat} {v x : K}

/-- The greatest value and the first position at which it stands. -/
structure FirstGreatest (values : List K) (k : Nat) (v : K) : Prop where
  getElem? : values[k]? = some v
  le : ∀ x ∈ values, x ≤ v
  lt : ∀ x ∈ values.take k, x < v

namespace FirstGreatest

theorem singleton (x : K) : FirstGreatest [x] 0 x where
  getElem? := rfl
  le := by simp
  lt := by simp

/-- A greater value behind the others takes over ... -/
theorem snoc_greater (h : FirstGreatest values k v) (hx : v < x) :
    FirstGreatest (values ++ [x]) values.length x where
  getElem? := by simp
  le := by
    intro y hy
    rcases List.mem_append.1 hy with hy | hy
    · exact (h.le y hy).trans hx.le
    · exact (List.mem_singleton.1 hy).le
  lt := by
    intro y hy
    rw [List.take_left'] at hy
    · exact (h.le y hy).trans_lt hx
    · rfl

/-- ... and one that is not greater does not. -/
theorem snoc_le (h : FirstGreatest values k v) (hx : x ≤ v) :
    FirstGreatest (values ++ [x]) k v := by
  obtain ⟨hk, -⟩ := List.getElem?_eq_some_iff.1 h.getElem?
  refine ⟨(List.getElem?_append_left hk).trans h.getElem?, ?_, ?_⟩
  · intro y hy
    rcases List.mem_append.1 hy with hy | hy
    · exact h.le y hy
    · exact (List.mem_singleton.1 hy).trans_le hx
  · rw [List.take_append_of_le_length hk.le]
    exact h.lt

end FirstGreatest

end Scans

/-! ## 2. The two scans -/

section Fields

variable {K : Type} [Field K] [LinearOrder K] {k : Nat} {best : K}

/-- The scan of the policy, from a first greatest value of what it has seen. -/
theorem EpsilonGreedy.firstGreatest_greedyFrom {seen : List K} (h : FirstGreatest seen k best)
    (rest : List (Estimate K)) :
    ∃ v, FirstGreatest (seen ++ rest.map Estimate.mean) (greedyFrom best k seen.length rest) v := by
  induction rest generalizing seen k best with
  | nil => exact ⟨best, by simpa [greedyFrom] using h⟩
  | cons e rest ih =>
    have hlength : seen.length + 1 = (seen ++ [e.mean]).length := by simp
    rw [List.map_cons, List.append_cons, greedyFrom, hlength]
    split
    · rename_i hlt
      exact ih (h.snoc_greater hlt)
    · rename_i hge
      exact ih (h.snoc_le (not_lt.1 hge))

/-- The policy without exploration plays the first arm with the greatest mean. -/
theorem EpsilonGreedy.firstGreatest_greedy (first : Estimate K) (rest : List (Estimate K)) :
    ∃ v, FirstGreatest ((first :: rest).map Estimate.mean) (greedy first rest) v :=
  firstGreatest_greedyFrom (FirstGreatest.singleton first.mean) rest

namespace ConfidenceBound

/-- The scan of the confidence bound, from a first greatest value of what it has seen. -/
theorem firstGreatest_greatestFrom {value : Arm K → K} {leader : Arm K} {seen : List (Arm K)}
    (h : FirstGreatest (seen.map value) k best) (hleader : seen[k]? = some leader)
    (rest : List (Arm K)) :
    ∃ j v, FirstGreatest ((seen ++ rest).map value) j v ∧
      (seen ++ rest)[j]? = some (greatestFrom value best leader rest) := by
  induction rest generalizing seen k best leader with
  | nil => exact ⟨k, best, by simpa using h, by simpa [greatestFrom] using hleader⟩
  | cons a rest ih =>
    rw [List.append_cons, greatestFrom]
    split
    · rename_i hlt
      have hnew : FirstGreatest ((seen ++ [a]).map value) seen.length (value a) := by
        have hgreater := h.snoc_greater hlt
        rw [List.length_map] at hgreater
        rw [List.map_append]
        exact hgreater
      exact ih hnew (by simp)
    · rename_i hge
      have hkept : FirstGreatest ((seen ++ [a]).map value) k best := by
        rw [List.map_append]
        exact h.snoc_le (not_lt.1 hge)
      obtain ⟨hk, -⟩ := List.getElem?_eq_some_iff.1 hleader
      exact ih hkept ((List.getElem?_append_left hk).trans hleader)

/-- The confidence bound proposes the first arm with the greatest value. -/
theorem firstGreatest_greatest (value : Arm K → K) (fallback : Arm K) {arms : List (Arm K)}
    (hne : arms ≠ []) :
    ∃ j v, FirstGreatest (arms.map value) j v ∧
      arms[j]? = some (greatest value fallback arms) := by
  cases arms with
  | nil => exact absurd rfl hne
  | cons a rest =>
    rw [greatest, if_pos le_rfl]
    have hfirst : FirstGreatest ([a].map value) 0 (value a) := .singleton _
    exact firstGreatest_greatestFrom hfirst rfl rest

end ConfidenceBound

end Fields

/-! ## 3. The foremost pair -/

/-- The legal pair with the greatest value, of equal ones the earliest row by row. -/
structure Coupling.Foremost {K : Type} [LinearOrder K] (c : Coupling) (value : Nat × Nat → K)
    (dr : Nat × Nat) : Prop where
  legal : c.allows dr.1 dr.2 = true
  le : ∀ x, c.allows x.1 x.2 = true → value x ≤ value dr
  earliest : ∀ x, c.allows x.1 x.2 = true → value x = value dr → x ≠ dr → Earlier dr x

namespace Coupling

variable {K : Type} {c : Coupling} {dr : Nat × Nat}

theorem Foremost.unique [LinearOrder K] {value : Nat × Nat → K} {x : Nat × Nat}
    (hdr : c.Foremost value dr) (hx : c.Foremost value x) : dr = x := by
  have heq : value dr = value x := le_antisymm (hx.le dr hdr.legal) (hdr.le x hx.legal)
  by_contra hne
  have hbefore : Earlier x dr := hx.earliest dr hdr.legal heq hne
  have hafter : Earlier dr x := hdr.earliest x hx.legal heq.symm fun h => hne h.symm
  exact hbefore.asymm hafter

/-- Every earlier pair has a smaller value. -/
theorem Foremost.lt [LinearOrder K] {value : Nat × Nat → K} {x : Nat × Nat}
    (h : c.Foremost value dr) (hx : c.allows x.1 x.2 = true) (hearlier : Earlier x dr) :
    value x < value dr := by
  refine lt_of_le_of_ne (h.le x hx) fun heq => ?_
  have hne : x ≠ dr := by
    rintro rfl
    exact hearlier.asymm hearlier
  exact hearlier.asymm (h.earliest x hx heq hne)

/-- A bonus that is the same for all pairs does not matter. -/
theorem Foremost.of_add [Field K] [LinearOrder K] [IsStrictOrderedRing K]
    {value : Nat × Nat → K} {bonus : K} (h : c.Foremost (fun x => value x + bonus) dr) :
    c.Foremost value dr where
  legal := h.legal
  le := fun x hx => le_of_add_le_add_right (h.le x hx)
  earliest := fun x hx heq => h.earliest x hx (congrArg (· + bonus) heq)

/-- Where the first greatest value along the legal pairs stands, there is the foremost pair. -/
theorem foremost_of_firstGreatest [LinearOrder K] {value : Nat × Nat → K} {k : Nat} {v : K}
    (h : FirstGreatest (c.legalPairs.map value) k v) (hdr : c.legalPairs[k]? = some dr) :
    c.Foremost value dr := by
  have hv : value dr = v := by
    have hk := h.getElem?
    rw [List.getElem?_map, hdr, Option.map_some, Option.some.injEq] at hk
    exact hk
  refine ⟨mem_legalPairs.1 (List.mem_of_getElem? hdr), ?_, ?_⟩
  · intro x hx
    rw [hv]
    exact h.le _ (List.mem_map_of_mem (mem_legalPairs.2 hx))
  · intro x hx heq hne
    obtain ⟨j, hj, rfl⟩ := List.getElem_of_mem (mem_legalPairs.2 hx)
    obtain ⟨hk, hget⟩ := List.getElem?_eq_some_iff.1 hdr
    rcases Nat.lt_trichotomy j k with hjk | hjk | hjk
    · -- An earlier pair would have a smaller value.
      have hmem : value c.legalPairs[j] ∈ (c.legalPairs.map value).take k := by
        refine List.mem_of_getElem? (i := j) ?_
        rw [List.getElem?_take_of_lt hjk, List.getElem?_map, List.getElem?_eq_getElem hj,
          Option.map_some]
      exact absurd (heq.trans hv) (h.lt _ hmem).ne
    · subst hjk
      exact absurd hget hne
    · rw [← hget]
      exact List.pairwise_iff_getElem.1 c.pairwise_legalPairs k j hk hj hjk

end Coupling

end LargeNeighbourhood
