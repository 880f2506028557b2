/-
# The paths of a rule

A rule that refers to shared rules is a graph: a shared rule has one state, and is asked once for
each path to it.  The tree of paths (`Rule.paths`) has a limit once for each path to it.  To say
what one question does, the limits get names, which are all different in the rules but not in the
tree, and a store holds the states behind them.

One question asks the limits of the tree of paths from left to right, and a limit that comes again
is asked in the state that its last turn left (`ranked`, `storeAfter`).  The proof follows the
shared rules in their order, and in each the rule from left to right (`asksPaths_of_byIndex`); what
carries it is that the states of the rules that a question can still reach are described by the
limits that were asked so far.

How many paths there are to a shared rule does not depend on its limits (`reached`), and each of
its limits comes that often (`count_limits_pick`).
-/
import Mathlib
import LargeNeighbourhood.Proofs.Stopping.Formula

namespace LargeNeighbourhood

namespace Rule

variable {ι L : Type}

/-! ## 1. The tree of paths -/

/-- The rule with these rules at the places for shared ones. -/
def subst (tree : Nat → Rule ι) : Rule ι → Rule ι := fold limit anyOf allOf tree

section Equations

variable (tree : Nat → Rule ι) (rules : List (Rule ι))

@[simp] theorem subst_limit (l : ι) : (limit l).subst tree = limit l := rfl

@[simp] theorem subst_anyOf : (anyOf rules).subst tree = anyOf (rules.map (subst tree)) := by
  rw [subst, fold, foldEach_eq_map]

@[simp] theorem subst_allOf : (allOf rules).subst tree = allOf (rules.map (subst tree)) := by
  rw [subst, fold, foldEach_eq_map]

@[simp] theorem subst_shared (i : Nat) : (shared i).subst tree = tree i := rfl

end Equations

/-- A tree by its index.  A place without a rule never stops, as a composite of no rules. -/
def pick (trees : List (Rule ι)) (i : Nat) : Rule ι := trees[i]?.getD (anyOf [])

/-- The trees of paths from some shared rules, each of which refers to those before it. -/
def trees (rows : List (Rule ι)) : List (Rule ι) :=
  rows.foldl (fun trees row => trees ++ [row.subst (pick trees)]) []

/-- The tree of paths from a rule that refers to some shared rules. -/
def paths (rows : List (Rule ι)) (rule : Rule ι) : Rule ι := rule.subst (pick (trees rows))

theorem trees_append_singleton (rows : List (Rule ι)) (row : Rule ι) :
    trees (rows ++ [row]) = trees rows ++ [paths rows row] := by
  rw [trees, List.foldl_append]
  rfl

@[simp] theorem length_trees (rows : List (Rule ι)) : (trees rows).length = rows.length := by
  induction rows using List.reverseRecOn with
  | nil => rfl
  | append_singleton rows row ih => simp [trees_append_singleton, ih]

theorem pick_append_left {ts us : List (Rule ι)} {i : Nat} (h : i < ts.length) :
    pick (ts ++ us) i = pick ts i := by
  rw [pick, pick, List.getElem?_append_left h]

theorem pick_append_right {ts us : List (Rule ι)} {i : Nat} (h : ts.length ≤ i) :
    pick (ts ++ us) i = pick us (i - ts.length) := by
  rw [pick, pick, List.getElem?_append_right h]

/-- A tree of paths has no places left. -/
theorem places_subst {tree : Nat → Rule ι} (h : ∀ i, (tree i).places = []) (rule : Rule ι) :
    (rule.subst tree).places = [] := by
  induction rule using induct with
  | limit l => rfl
  | anyOf rules ih =>
    rw [subst_anyOf, places_anyOf, List.flatMap_map, List.flatMap_eq_nil_iff]
    exact ih
  | allOf rules ih =>
    rw [subst_allOf, places_allOf, List.flatMap_map, List.flatMap_eq_nil_iff]
    exact ih
  | shared i => exact h i

theorem places_pick (rows : List (Rule ι)) (i : Nat) : (pick (trees rows) i).places = [] := by
  induction rows using List.reverseRecOn generalizing i with
  | nil => simp [trees, pick]
  | append_singleton rows row ih =>
    rw [trees_append_singleton]
    rcases Nat.lt_or_ge i (trees rows).length with hlt | hge
    · rw [pick_append_left hlt]
      exact ih i
    · rw [pick_append_right hge]
      cases i - (trees rows).length with
      | zero => exact places_subst ih row
      | succ j => simp [pick]

section Count

variable [DecidableEq ι]

/-- In a tree of paths a limit comes as often as in the rule itself and in the trees at its
places. -/
theorem count_limits_subst (tree : Nat → Rule ι) (l : ι) (rule : Rule ι) :
    (rule.subst tree).limits.count l
      = rule.limits.count l + (rule.places.map fun i => (tree i).limits.count l).sum := by
  have hchildren : ∀ rules : List (Rule ι), (∀ rule ∈ rules, (rule.subst tree).limits.count l
      = rule.limits.count l + (rule.places.map fun i => (tree i).limits.count l).sum) →
      ((rules.map (subst tree)).flatMap limits).count l = (rules.flatMap limits).count l +
        ((rules.flatMap places).map fun i => (tree i).limits.count l).sum := by
    intro rules ih
    induction rules with
    | nil => rfl
    | cons rule rules ih' =>
      obtain ⟨hrule, hrules⟩ := List.forall_mem_cons.1 ih
      have hrest := ih' hrules
      simp only [List.map_cons, List.flatMap_cons, List.count_append, List.map_append,
        List.sum_append, hrule, hrest]
      omega
  induction rule using induct with
  | limit k => simp
  | anyOf rules ih => simpa using hchildren rules ih
  | allOf rules ih => simpa using hchildren rules ih
  | shared i => simp

/-- A tree of paths has no other limits than the rule and the trees at its places. -/
theorem not_mem_limits_subst {tree : Nat → Rule ι} {rule : Rule ι} {l : ι}
    (h : l ∉ rule.limits) (ht : ∀ i, l ∉ (tree i).limits) : l ∉ (rule.subst tree).limits := by
  have hzero : ∀ i, (tree i).limits.count l = 0 := fun i => List.count_eq_zero_of_not_mem (ht i)
  rw [← List.count_eq_zero, count_limits_subst, List.count_eq_zero_of_not_mem h]
  simp [hzero]

/-- The trees of some rows have no other limits than the rows. -/
theorem not_mem_limits_pick {rows : List (Rule ι)} {l : ι} (h : l ∉ rows.flatMap limits) (i : Nat) :
    l ∉ (pick (trees rows) i).limits := by
  induction rows using List.reverseRecOn generalizing i with
  | nil => simp [trees, pick]
  | append_singleton rows row ih =>
    rw [List.flatMap_append, List.mem_append, not_or] at h
    rw [trees_append_singleton]
    rcases Nat.lt_or_ge i (trees rows).length with hlt | hge
    · rw [pick_append_left hlt]
      exact ih h.1 i
    · rw [pick_append_right hge]
      cases i - (trees rows).length with
      | zero => exact not_mem_limits_subst (by simpa using h.2) (ih h.1)
      | succ j => simp [pick]

/-- A tree of paths has no other limits than the rule and the rows. -/
theorem not_mem_limits_paths {rows : List (Rule ι)} {rule : Rule ι} {l : ι}
    (h : l ∉ rule.limits) (hrows : l ∉ rows.flatMap limits) : l ∉ (paths rows rule).limits :=
  not_mem_limits_subst h (not_mem_limits_pick hrows)

theorem not_mem_limits_pathsEach {rows rules : List (Rule ι)} {l : ι}
    (h : l ∉ rules.flatMap limits) (hrows : l ∉ rows.flatMap limits) :
    l ∉ (rules.map (paths rows)).flatMap limits := by
  rw [← limits_anyOf] at h
  have hpaths := not_mem_limits_paths h hrows
  rwa [paths, subst_anyOf, limits_anyOf] at hpaths

end Count

/-! ## 2. Limits that are asked again and again -/

variable [DecidableEq ι]

mutual

/-- The tree with the number of each limit's turn: how often it was asked before, in a round from
left to right that began after `before`. -/
def ranked (before : List ι) : Rule ι → Rule (ι × Nat)
  | .limit l => .limit (l, before.count l)
  | .anyOf rules => .anyOf (rankedEach before rules)
  | .allOf rules => .allOf (rankedEach before rules)
  | .shared i => .shared i

/-- The same of some trees from left to right. -/
def rankedEach (before : List ι) : List (Rule ι) → List (Rule (ι × Nat))
  | [] => []
  | rule :: rules => ranked before rule :: rankedEach (before ++ rule.limits) rules

end

/-- The states of the limits after some of them were asked, some of them more than once. -/
def storeAfter (query : L → Bool × L) (store : ι → L) (asked : List ι) (l : ι) : L :=
  (fun state => (query state).2)^[asked.count l] (store l)

/-- What a limit answers when its turn comes. -/
def verdictAt (query : L → Bool × L) (store : ι → L) (turn : ι × Nat) : Bool :=
  (query ((fun state => (query state).2)^[turn.2] (store turn.1))).1

/-- The answer of a tree when its limits are asked from left to right after `before`. -/
def answer (query : L → Bool × L) (store : ι → L) (before : List ι) (tree : Rule ι) : Bool :=
  (ranked before tree).value (verdictAt query store)

variable {query : L → Bool × L} {store : ι → L}

theorem storeAfter_nil : storeAfter query store ([] : List ι) = store := rfl

/-- A limit is not touched by the turns of others. -/
theorem map_storeAfter {rule : Rule ι} {before asked : List ι} (h : ∀ l ∈ rule.limits, l ∉ asked) :
    rule.map (storeAfter query store (before ++ asked))
      = rule.map (storeAfter query store before) := by
  refine map_congr fun l hl => ?_
  rw [storeAfter, storeAfter, List.count_append, List.count_eq_zero_of_not_mem (h l hl),
    Nat.add_zero]

theorem storeAfter_self (before : List ι) (l : ι) :
    storeAfter query store (before ++ [l]) l = (query (storeAfter query store before l)).2 := by
  rw [storeAfter, storeAfter, List.count_append, List.count_singleton_self,
    Function.iterate_succ_apply']

/-! ## 3. One question to a graph -/

/-- The shared rules with the states of their limits after some were asked, and more rules. -/
def rowsAfter (query : L → Bool × L) (store : ι → L) (rows : List (Rule ι)) (more : List (Rule L))
    (asked : List ι) : List (Rule L) :=
  rows.map (map (storeAfter query store asked)) ++ more

/-- A limit that no row has leaves the rows alone. -/
theorem rowsAfter_append {rows : List (Rule ι)} {more : List (Rule L)} {before asked : List ι}
    (h : ∀ l ∈ asked, l ∉ rows.flatMap limits) :
    rowsAfter query store rows more (before ++ asked) = rowsAfter query store rows more before := by
  refine congrArg (· ++ more) (List.map_congr_left fun row hrow => map_storeAfter ?_)
  intro l hl hasked
  exact h l hasked (List.mem_flatMap.2 ⟨row, hrow, hl⟩)

section Ask

variable {rows : List (Rule ι)} {more : List (Rule L)} {byIndex : Nat → StateM (List (Rule L)) Bool}

/-- One question to a rule, after some of the limits were asked, is answered by its tree of paths
and asks the limits of this tree. -/
def AsksPaths (query : L → Bool × L) (store : ι → L) (rows : List (Rule ι)) (more : List (Rule L))
    (byIndex : Nat → StateM (List (Rule L)) Bool) (rule : Rule ι) : Prop :=
  ∀ before, (rule.map (storeAfter query store before)).ask query byIndex
      (rowsAfter query store rows more before)
    = ((answer query store before (paths rows rule),
        rule.map (storeAfter query store (before ++ (paths rows rule).limits))),
      rowsAfter query store rows more (before ++ (paths rows rule).limits))

/-- Rules in a row are asked from left to right, each after what the ones before it asked. -/
theorem askEach_paths {rules : List (Rule ι)}
    (hrules : ∀ rule ∈ rules, AsksPaths query store rows more byIndex rule)
    (hnodup : (rules.flatMap limits).Nodup)
    (hown : ∀ l ∈ rules.flatMap limits, l ∉ rows.flatMap limits) (before : List ι) :
    askEach query byIndex (rules.map (map (storeAfter query store before)))
        (rowsAfter query store rows more before)
      = (((rankedEach before (rules.map (paths rows))).map (value (verdictAt query store)),
          rules.map (map (storeAfter query store
            (before ++ (rules.map (paths rows)).flatMap limits)))),
        rowsAfter query store rows more (before ++ (rules.map (paths rows)).flatMap limits)) := by
  induction rules generalizing before with
  | nil =>
    simp only [List.map_nil, List.flatMap_nil, List.append_nil, rankedEach]
    rfl
  | cons rule rules ih =>
    obtain ⟨hrule, hrest⟩ := List.forall_mem_cons.1 hrules
    rw [List.flatMap_cons] at hnodup hown
    obtain ⟨-, hsecond, hdisjoint⟩ := List.nodup_append.1 hnodup
    have hown' : ∀ l ∈ rules.flatMap limits, l ∉ rows.flatMap limits := fun l hl =>
      hown l (List.mem_append_right _ hl)
    -- what the first rule asks is not in the others, nor what they ask in the first
    have hothers : rules.map (map (storeAfter query store (before ++ (paths rows rule).limits)))
        = rules.map (map (storeAfter query store before)) := by
      refine List.map_congr_left fun other ho => map_storeAfter fun l hl => ?_
      have hl' : l ∈ rules.flatMap limits := List.mem_flatMap.2 ⟨other, ho, hl⟩
      exact not_mem_limits_paths (fun hmem => hdisjoint l hmem l hl' rfl) (hown' l hl')
    have hself : rule.map (storeAfter query store (before ++ (paths rows rule).limits ++
          (rules.map (paths rows)).flatMap limits))
        = rule.map (storeAfter query store (before ++ (paths rows rule).limits)) := by
      refine map_storeAfter fun l hl => ?_
      exact not_mem_limits_pathsEach (fun hmem => hdisjoint l hl l hmem rfl)
        (hown l (List.mem_append_left _ hl))
    have hnext := ih hrest hsecond hown' (before ++ (paths rows rule).limits)
    rw [hothers] at hnext
    simp only [List.map_cons, askEach, bind, StateT.bind, hrule before, hnext, List.flatMap_cons,
      rankedEach, ← List.append_assoc, hself]
    rfl

/-- A rule whose limits are its own is asked along its tree of paths, if the rules it refers to
are. -/
theorem asksPaths_of_byIndex {rule : Rule ι}
    (hby : ∀ i before, byIndex i (rowsAfter query store rows more before)
      = (answer query store before (pick (trees rows) i),
        rowsAfter query store rows more (before ++ (pick (trees rows) i).limits)))
    (hnodup : rule.limits.Nodup) (hown : ∀ l ∈ rule.limits, l ∉ rows.flatMap limits) :
    AsksPaths query store rows more byIndex rule := by
  have hchildren : ∀ rules : List (Rule ι),
      (∀ rule ∈ rules, rule.limits.Nodup → (∀ l ∈ rule.limits, l ∉ rows.flatMap limits) →
        AsksPaths query store rows more byIndex rule) →
      (rules.flatMap limits).Nodup → (∀ l ∈ rules.flatMap limits, l ∉ rows.flatMap limits) →
      ∀ rule ∈ rules, AsksPaths query store rows more byIndex rule := by
    intro rules ih hnodup hown rule hr
    refine ih rule hr ((List.nodup_flatMap.1 hnodup).1 rule hr) fun l hl => ?_
    exact hown l (List.mem_flatMap.2 ⟨rule, hr, hl⟩)
  induction rule using induct with
  | limit l =>
    intro before
    have hrows : rowsAfter query store rows more (before ++ [l])
        = rowsAfter query store rows more before := by
      refine rowsAfter_append fun k hk => ?_
      rw [List.mem_singleton.1 hk]
      exact hown l (by simp)
    simp only [paths, subst_limit, limits_limit, map_limit, ask, hrows, storeAfter_self]
    rfl
  | anyOf rules ih =>
    intro before
    rw [limits_anyOf] at hnodup hown
    have heach := askEach_paths (hchildren rules ih hnodup hown) hnodup hown before
    simp only [paths, subst_anyOf, limits_anyOf, map_anyOf, answer, ranked, value_anyOf]
    simp only [ask, bind, StateT.bind, heach]
    simp only [List.any_map]
    rfl
  | allOf rules ih =>
    intro before
    rw [limits_allOf] at hnodup hown
    have heach := askEach_paths (hchildren rules ih hnodup hown) hnodup hown before
    simp only [paths, subst_allOf, limits_allOf, map_allOf, answer, ranked, value_allOf]
    simp only [ask, bind, StateT.bind, heach]
    simp only [List.all_map]
    rfl
  | shared i =>
    intro before
    simp only [paths, subst_shared, map_shared, ask, bind, StateT.bind, hby i before]
    rfl

end Ask

theorem askShared_of_ne {n i : Nat} (h : i ≠ n) (rows : List (Rule L)) :
    askShared query (n + 1) i rows = askShared query n i rows := by
  rw [askShared, if_neg h]

/-- A shared rule is asked with the rules before it in their places, and then put back. -/
theorem askShared_self {n : Nat} {rows : List (Rule L)} {rule : Rule L} (h : rows[n]? = some rule) :
    askShared query (n + 1) n rows
      = ((rule.ask query (askShared query n) rows).1.1,
        (rule.ask query (askShared query n) rows).2.set n
          (rule.ask query (askShared query n) rows).1.2) := by
  simp only [askShared, if_true, bind, StateT.bind, get, getThe, MonadStateOf.get, StateT.get, pure,
    h]
  rfl

/-- **A shared rule is asked along its tree of paths.** -/
theorem askShared_paths {rows : List (Rule ι)} (hnodup : (rows.flatMap limits).Nodup)
    (more : List (Rule L)) (i : Nat) (before : List ι) :
    askShared query rows.length i (rowsAfter query store rows more before)
      = (answer query store before (pick (trees rows) i),
        rowsAfter query store rows more (before ++ (pick (trees rows) i).limits)) := by
  induction rows using List.reverseRecOn generalizing more i before with
  | nil =>
    simp [trees, pick, answer, ranked, rankedEach, rowsAfter]
    rfl
  | append_singleton rows row ih =>
    rw [List.flatMap_append, List.flatMap_singleton] at hnodup
    obtain ⟨hrows, hrow, hdisjoint⟩ := List.nodup_append.1 hnodup
    have hown : ∀ l ∈ row.limits, l ∉ rows.flatMap limits := fun l hl hmem =>
      hdisjoint l hmem l hl rfl
    -- while the rows before it are asked, the last row is one of those that are not reached
    have hstate : ∀ asked, rowsAfter query store (rows ++ [row]) more asked
        = rowsAfter query store rows (row.map (storeAfter query store asked) :: more) asked := by
      intro asked
      simp [rowsAfter]
    rw [List.length_append, List.length_singleton, trees_append_singleton]
    by_cases hi : i = rows.length
    · have hlast : pick (trees rows ++ [paths rows row]) i = paths rows row := by
        rw [hi, ← length_trees rows, pick_append_right (Nat.le_refl _), Nat.sub_self]
        rfl
      have hget : (rowsAfter query store (rows ++ [row]) more before)[rows.length]?
          = some (row.map (storeAfter query store before)) := by
        simp [rowsAfter]
      have hask := asksPaths_of_byIndex
        (ih hrows (row.map (storeAfter query store before) :: more)) hrow hown before
      rw [hlast, hi, askShared_self hget, hstate before, hask]
      simp only
      rw [hstate]
      simp [rowsAfter]
    · have hbelow : pick (trees rows ++ [paths rows row]) i = pick (trees rows) i := by
        rcases Nat.lt_or_ge i (trees rows).length with hlt | hge
        · exact pick_append_left hlt
        · rw [length_trees] at hge
          rw [pick, pick, List.getElem?_eq_none (by simp; omega),
            List.getElem?_eq_none (by simpa using hge)]
      have hsame : row.map (storeAfter query store (before ++ (pick (trees rows) i).limits))
          = row.map (storeAfter query store before) :=
        map_storeAfter fun l hl => not_mem_limits_pick (hown l hl) i
      rw [hbelow, askShared_of_ne hi, hstate, ih hrows, hstate, hsame]

/-! ## 4. How often a shared rule is asked -/

omit [DecidableEq ι] in
/-- The shared rules on the paths through a place, from left to right: the rule itself, and those
that it reaches. -/
def through (reached : List (List Nat)) (i : Nat) : List Nat :=
  (reached[i]?.map fun others => i :: others).getD []

/-- The shared rules that each of some rows reaches, once for each path to them. -/
def reachedEach (rows : List (Rule ι)) : List (List Nat) :=
  rows.foldl (fun reached row => reached ++ [row.places.flatMap (through reached)]) []

/-- The shared rules that a rule reaches, once for each path to them. -/
def reached (rows : List (Rule ι)) (rule : Rule ι) : List Nat :=
  rule.places.flatMap (through (reachedEach rows))

omit [DecidableEq ι] in
theorem reachedEach_append_singleton (rows : List (Rule ι)) (row : Rule ι) :
    reachedEach (rows ++ [row]) = reachedEach rows ++ [reached rows row] := by
  rw [reachedEach, List.foldl_append]
  rfl

omit [DecidableEq ι] in
@[simp] theorem length_reachedEach (rows : List (Rule ι)) :
    (reachedEach rows).length = rows.length := by
  induction rows using List.reverseRecOn with
  | nil => rfl
  | append_singleton rows row ih => simp [reachedEach_append_singleton, ih]

omit [DecidableEq ι] in
/-- A place reaches existing rows only. -/
theorem lt_of_mem_through {rows : List (Rule ι)} {i j : Nat}
    (h : j ∈ through (reachedEach rows) i) : j < rows.length := by
  induction rows using List.reverseRecOn generalizing i with
  | nil => exact absurd h (by simp [through, reachedEach])
  | append_singleton rows row ih =>
    rw [reachedEach_append_singleton, through] at h
    rw [List.length_append, List.length_singleton]
    rcases Nat.lt_or_ge i (reachedEach rows).length with hlt | hge
    · rw [List.getElem?_append_left hlt] at h
      have hj := ih h
      omega
    · rw [List.getElem?_append_right hge] at h
      rw [length_reachedEach] at hge h
      rcases hk : i - rows.length with _ | k
      · rw [hk] at h
        rcases List.mem_cons.1 h with rfl | h
        · omega
        · obtain ⟨place, -, h⟩ := List.mem_flatMap.1 h
          have hj := ih h
          omega
      · rw [hk] at h
        exact absurd h (by simp)

/-- If limits come once for each path through a place, they do so for each path from a rule. -/
theorem count_limits_paths {rows : List (Rule ι)} {i : Nat} {l : ι}
    (h : ∀ j, (pick (trees rows) j).limits.count l = (through (reachedEach rows) j).count i)
    (rule : Rule ι) :
    (paths rows rule).limits.count l = rule.limits.count l + (reached rows rule).count i := by
  rw [paths, count_limits_subst, reached, List.count_flatMap]
  refine congrArg (rule.limits.count l + ·) (congrArg List.sum (List.map_congr_left ?_))
  intro j hj
  exact h j

/-- **The limits of a shared rule come once for each path to the rule.** -/
theorem count_limits_pick {rows : List (Rule ι)} (hnodup : (rows.flatMap limits).Nodup) {i : Nat}
    {row : Rule ι} (hrow : rows[i]? = some row) {l : ι} (hl : l ∈ row.limits) (j : Nat) :
    (pick (trees rows) j).limits.count l = (through (reachedEach rows) j).count i := by
  induction rows using List.reverseRecOn generalizing j with
  | nil => exact absurd hrow (by simp)
  | append_singleton rows last ih =>
    rw [List.flatMap_append, List.flatMap_singleton] at hnodup
    obtain ⟨hrows, hlast, hdisjoint⟩ := List.nodup_append.1 hnodup
    -- the limit is in one of the rows before the last, or else the row is the last
    obtain ⟨hbelow, hown⟩ : (∀ j, (pick (trees rows) j).limits.count l
          = (through (reachedEach rows) j).count i) ∧
        last.limits.count l = if rows.length = i then 1 else 0 := by
      rcases Nat.lt_or_ge i rows.length with hlt | hge
      · rw [List.getElem?_append_left hlt] at hrow
        have hmem : l ∈ rows.flatMap limits :=
          List.mem_flatMap.2 ⟨row, List.mem_of_getElem? hrow, hl⟩
        refine ⟨ih hrows hrow, ?_⟩
        rw [if_neg (Nat.ne_of_gt hlt), List.count_eq_zero]
        exact fun hmem' => hdisjoint l hmem l hmem' rfl
      · rw [List.getElem?_append_right hge] at hrow
        obtain ⟨hi, rfl⟩ : i - rows.length = 0 ∧ last = row := by
          cases hk : i - rows.length with
          | zero =>
            rw [hk] at hrow
            exact ⟨rfl, Option.some.inj hrow⟩
          | succ k =>
            rw [hk] at hrow
            exact absurd hrow (by simp)
        have hnot : l ∉ rows.flatMap limits := fun hmem => hdisjoint l hmem l hl rfl
        refine ⟨fun j => ?_, ?_⟩
        · rw [List.count_eq_zero_of_not_mem (not_mem_limits_pick hnot j), eq_comm,
            List.count_eq_zero]
          intro hmem
          have hlt := lt_of_mem_through hmem
          omega
        · rw [if_pos (by omega)]
          exact List.count_eq_one_of_mem hlast hl
    rw [trees_append_singleton, reachedEach_append_singleton]
    rcases Nat.lt_trichotomy j rows.length with hj | rfl | hj
    · rw [pick_append_left (by simpa using hj), through,
        List.getElem?_append_left (by simpa using hj)]
      exact hbelow j
    · have hpick : pick (trees rows ++ [paths rows last]) rows.length = paths rows last := by
        rw [pick_append_right (by simp), length_trees, Nat.sub_self]
        rfl
      have hthrough : through (reachedEach rows ++ [reached rows last]) rows.length
          = rows.length :: reached rows last := by
        rw [through, List.getElem?_append_right (by simp), length_reachedEach, Nat.sub_self]
        rfl
      rw [hpick, hthrough, count_limits_paths hbelow, hown, List.count_cons, Nat.add_comm]
      simp only [beq_iff_eq]
    · rw [pick, through, List.getElem?_eq_none (by simp; omega),
        List.getElem?_eq_none (by simp; omega)]
      rfl

end Rule

end LargeNeighbourhood
