/-
# Shared rules

A stopping criterion with shared rules answers by its tree of paths, and asks each shared rule as
often as there are paths to it from the root (`Stopping.ask_tree`).  So its answers depend on the
tree of paths and on nothing else of it (`Stopping.askAll_eq_of_tree`).

To share the children of a composite, each in one place, leaves the tree of paths as it is
(`Stopping.Shares.tree_eq`), wherever the composite stands: in the root, or in a rule that is shared
itself.
-/
import Mathlib
import LargeNeighbourhood.Proofs.Scalar.Exact
import LargeNeighbourhood.Proofs.Search.Protocol
import LargeNeighbourhood.Proofs.Stopping.Paths

namespace LargeNeighbourhood

open Act

/-! ## 1. Stopping criteria -/

namespace Stopping

open Rule

variable {ι L : Type}

/-- The same criterion over other limits. -/
def map {M : Type} (f : L → M) (s : Stopping L) : Stopping M where
  shared := s.shared.map (Rule.map f)
  root := s.root.map f

/-- The tree of paths from the root. -/
def tree (plan : Stopping ι) : Rule ι := paths plan.shared plan.root

/-- All limits have different names. -/
def Distinct (plan : Stopping ι) : Prop :=
  (plan.shared.flatMap limits ++ plan.root.limits).Nodup

variable [DecidableEq ι]

/-- **One question to the root** is answered by the tree of paths, and asks each limit as often as
there are paths to it, from left to right. -/
theorem ask_tree {plan : Stopping ι} (h : plan.Distinct) (query : L → Bool × L) (store : ι → L) :
    (plan.map store).ask query = (answer query store [] plan.tree,
      plan.map (storeAfter query store plan.tree.limits)) := by
  obtain ⟨hshared, hroot, hdisjoint⟩ := List.nodup_append.1 h
  have hown : ∀ l ∈ plan.root.limits, l ∉ plan.shared.flatMap limits := fun l hl hmem =>
    hdisjoint l hmem l hl rfl
  have hasks : AsksPaths query store plan.shared [] _ plan.root :=
    asksPaths_of_byIndex (askShared_paths hshared []) hroot hown
  have hask := hasks []
  simp only [storeAfter_nil, rowsAfter, List.append_nil, List.nil_append] at hask
  rw [ask, map]
  simp only [List.length_map, hask]
  rfl

/-- **The answers depend on the tree of paths only.** -/
theorem askAll_eq_of_tree {plan other : Stopping ι} (h : plan.Distinct) (h' : other.Distinct)
    (htree : other.tree = plan.tree) (queries : List (L → Bool × L)) (store : ι → L) :
    (askAll queries (other.map store)).1 = (askAll queries (plan.map store)).1 := by
  induction queries generalizing store with
  | nil => rfl
  | cons query queries ih =>
    rw [askAll, askAll, ask_tree h, ask_tree h', htree]
    exact congrArg (answer query store [] plan.tree :: ·) (ih _)

/-- The shared rules, once for each path from the root to them, from left to right. -/
def visits (plan : Stopping ι) : List Nat := reached plan.shared plan.root

/-- **The limits of a shared rule are asked once for each path to it**, those of the root once. -/
theorem count_limits_tree {plan : Stopping ι} (h : plan.Distinct) {l : ι} :
    (∀ i row, plan.shared[i]? = some row → l ∈ row.limits →
      plan.tree.limits.count l = plan.visits.count i) ∧
    (l ∈ plan.root.limits → plan.tree.limits.count l = 1) := by
  obtain ⟨hshared, hroot, hdisjoint⟩ := List.nodup_append.1 h
  constructor
  · intro i row hrow hl
    have hnot : l ∉ plan.root.limits := fun hmem =>
      hdisjoint l (List.mem_flatMap.2 ⟨row, List.mem_of_getElem? hrow, hl⟩) l hmem rfl
    rw [tree, count_limits_paths (count_limits_pick hshared hrow hl),
      List.count_eq_zero_of_not_mem hnot, Nat.zero_add]
    rfl
  · intro hl
    have hnot : l ∉ plan.shared.flatMap limits := fun hmem => hdisjoint l hmem l hl rfl
    have hzero : ∀ i, (pick (trees plan.shared) i).limits.count l = 0 := fun i =>
      List.count_eq_zero_of_not_mem (not_mem_limits_pick hnot i)
    rw [tree, paths, count_limits_subst, List.count_eq_one_of_mem hroot hl]
    simp [hzero]

end Stopping

/-! ## 2. Names for limits -/

section Names

variable {L : Type}

namespace Rule

/-- Some rules can be numbered from left to right if each of them can. -/
theorem exists_numberedEach {rules : List (Rule L)}
    (h : ∀ rule ∈ rules, ∀ n, ∃ named : Rule (L × Nat), named.map Prod.fst = rule ∧
      named.limits = rule.limits.zipIdx n) (n : Nat) :
    ∃ named : List (Rule (L × Nat)), named.map (map Prod.fst) = rules ∧
      named.flatMap limits = (rules.flatMap limits).zipIdx n := by
  induction rules generalizing n with
  | nil => exact ⟨[], rfl, rfl⟩
  | cons rule rules ih =>
    obtain ⟨hrule, hrules⟩ := List.forall_mem_cons.1 h
    obtain ⟨first, hfirst, hlimits⟩ := hrule n
    obtain ⟨rest, hrest, hlimits'⟩ := ih hrules (n + rule.limits.length)
    refine ⟨first :: rest, by rw [List.map_cons, hfirst, hrest], ?_⟩
    rw [List.flatMap_cons, List.flatMap_cons, List.zipIdx_append, hlimits, hlimits']

/-- The limits of a rule can be numbered from left to right. -/
theorem exists_numbered (rule : Rule L) (n : Nat) :
    ∃ named : Rule (L × Nat), named.map Prod.fst = rule ∧
      named.limits = rule.limits.zipIdx n := by
  induction rule using induct generalizing n with
  | limit l => exact ⟨limit (l, n), rfl, rfl⟩
  | anyOf rules ih =>
    obtain ⟨named, hnamed, hlimits⟩ := exists_numberedEach ih n
    exact ⟨anyOf named, by rw [map_anyOf, hnamed], by rw [limits_anyOf, limits_anyOf, hlimits]⟩
  | allOf rules ih =>
    obtain ⟨named, hnamed, hlimits⟩ := exists_numberedEach ih n
    exact ⟨allOf named, by rw [map_allOf, hnamed], by rw [limits_allOf, limits_allOf, hlimits]⟩
  | shared i => exact ⟨shared i, rfl, rfl⟩

end Rule

/-- **Every stopping criterion is one with different names for its limits**, over a store. -/
theorem Stopping.exists_plan (s : Stopping L) :
    ∃ plan : Stopping (L × Nat), plan.Distinct ∧ plan.map Prod.fst = s := by
  obtain ⟨shared, hshared, hlimits⟩ :=
    Rule.exists_numberedEach (fun rule (_ : rule ∈ s.shared) => rule.exists_numbered) 0
  obtain ⟨root, hroot, hlimits'⟩ :=
    s.root.exists_numbered (s.shared.flatMap Rule.limits).length
  refine ⟨⟨shared, root⟩, ?_, ?_⟩
  · have hall : shared.flatMap Rule.limits ++ root.limits
        = (s.shared.flatMap Rule.limits ++ s.root.limits).zipIdx 0 := by
      rw [List.zipIdx_append, hlimits, hlimits', Nat.zero_add]
    rw [Distinct, hall]
    refine List.Nodup.of_map Prod.snd ?_
    rw [List.zipIdx_map_snd]
    exact List.nodup_range'
  · rw [map, hshared, hroot]

end Names

/-! ## 3. Sharing the children of a composite -/

namespace Rule

variable {K ι : Type}

/-- Places for some shared rules are made without fail. -/
theorem shareEach_some (indices : List Nat) :
    (shareEach (indices.map some) : Except (Fault K) (List (Option (Rule ι))))
      = .ok (indices.map fun i => some (shared i)) := by
  have hpure : (shareEach (indices.map some) : Except (Fault K) (List (Option (Rule ι))))
      = indices.mapM fun i => pure (some (shared i)) := List.mapM_map
  rw [hpure, List.mapM_pure]
  rfl

/-- A composite of rules that are all there has these children. -/
theorem children_some {rules kids : List (Rule ι)}
    (h : (children (rules.map some) : Except (Fault K) _) = .ok kids) : kids = rules := by
  have hpure : (rules.map some).mapM id = rules.mapM (m := Option) fun rule => pure (id rule) :=
    List.mapM_map
  have hall : (rules.map some).mapM id = some rules := by
    rw [hpure, List.mapM_pure, List.map_id]
    rfl
  unfold children at h
  split at h
  · exact absurd h (by simp)
  · rw [hall] at h
    cases h
    rfl

/-- Places for the shared rules from one on. -/
def placesFrom (first count : Nat) : List (Rule ι) :=
  (List.range count).map fun j => shared (first + j)

/-- A composite over places for shared rules, as the library makes it. -/
theorem made_eq (make : List (Rule ι) → Rule ι) {first count : Nat} {composite : Rule ι}
    (h : (shareEach ((List.range count).map fun j => some (first + j)) >>= fun places =>
      make <$> children places : Except (Fault K) _) = .ok composite) :
    composite = make (placesFrom first count) := by
  have hindices : ((List.range count).map fun j => some (first + j))
      = ((List.range count).map fun j => first + j).map some := by
    rw [List.map_map]
    rfl
  rw [hindices, shareEach_some, List.map_map] at h
  have hplaces : ((List.range count).map ((fun i => some (shared i : Rule ι)) ∘ fun j => first + j))
      = (placesFrom first count).map some := by
    rw [placesFrom, List.map_map]
    rfl
  rw [hplaces] at h
  have h' : make <$> (children ((placesFrom first count).map some) : Except (Fault K) _)
      = .ok composite := h
  cases hkids : (children ((placesFrom first count).map some) : Except (Fault K) _) with
  | error f =>
    rw [hkids] at h'
    exact absurd h' (by simp [Functor.map, Except.map])
  | ok kids =>
    rw [hkids] at h'
    cases h'
    rw [children_some hkids]

/-- One composite in a rule has its children shared: they become the shared rules from `first` on,
and the composite is made again with a place for each. -/
inductive Shares (K : Type) (first : Nat) (kids : List (Rule ι)) : Rule ι → Rule ι → Prop
  | any {composite}
      (made : (shareEach ((List.range kids.length).map fun j => some (first + j)) >>= makeAny :
        Except (Fault K) _) = .ok composite) : Shares K first kids (.anyOf kids) composite
  | all {composite}
      (made : (shareEach ((List.range kids.length).map fun j => some (first + j)) >>= makeAll :
        Except (Fault K) _) = .ok composite) : Shares K first kids (.allOf kids) composite
  | inAny {before after rule composite} (h : Shares K first kids rule composite) :
      Shares K first kids (.anyOf (before ++ rule :: after)) (.anyOf (before ++ composite :: after))
  | inAll {before after rule composite} (h : Shares K first kids rule composite) :
      Shares K first kids (.allOf (before ++ rule :: after)) (.allOf (before ++ composite :: after))

/-- The places of a rule decide what its tree depends on. -/
theorem subst_congr {tree tree' : Nat → Rule ι} {rule : Rule ι}
    (h : ∀ i ∈ rule.places, tree i = tree' i) : rule.subst tree = rule.subst tree' := by
  induction rule using induct with
  | limit l => rfl
  | anyOf rules ih =>
    rw [subst_anyOf, subst_anyOf]
    refine congrArg anyOf (List.map_congr_left fun rule hr => ih rule hr ?_)
    intro i hi
    exact h i (by simpa using ⟨rule, hr, hi⟩)
  | allOf rules ih =>
    rw [subst_allOf, subst_allOf]
    refine congrArg allOf (List.map_congr_left fun rule hr => ih rule hr ?_)
    intro i hi
    exact h i (by simpa using ⟨rule, hr, hi⟩)
  | shared i => exact h i (by simp)

namespace Shares

variable {first : Nat} {kids : List (Rule ι)} {rule composite : Rule ι}

/-- The children had their places in the rule. -/
theorem places_subset (h : Shares K first kids rule composite) :
    ∀ i ∈ kids.flatMap places, i ∈ rule.places := by
  induction h with
  | any made => simp
  | all made => simp
  | inAny h ih =>
    intro i hi
    simp [ih i hi]
  | inAll h ih =>
    intro i hi
    simp [ih i hi]

/-- Where the children went the tree of paths finds them. -/
theorem subst_eq (h : Shares K first kids rule composite) {tree tree' : Nat → Rule ι}
    (hkids : ∀ j (hj : j < kids.length), tree' (first + j) = kids[j].subst tree)
    (hsame : ∀ i ∈ rule.places, tree' i = tree i) : composite.subst tree' = rule.subst tree := by
  have hplaces : (placesFrom first kids.length).map (subst tree') = kids.map (subst tree) := by
    refine List.ext_getElem (by simp [placesFrom]) ?_
    intro j hj hj'
    simp only [placesFrom, List.map_map, List.getElem_map, List.getElem_range,
      Function.comp_apply, subst_shared]
    exact hkids j (by simpa using hj')
  have hother : ∀ rules : List (Rule ι), (∀ i ∈ rules.flatMap places, tree' i = tree i) →
      rules.map (subst tree') = rules.map (subst tree) := by
    intro rules hrules
    refine List.map_congr_left fun rule hr => subst_congr fun i hi => ?_
    exact hrules i (List.mem_flatMap.2 ⟨rule, hr, hi⟩)
  induction h with
  | any made =>
    rw [made_eq anyOf made, subst_anyOf, subst_anyOf, hplaces]
  | all made =>
    rw [made_eq allOf made, subst_allOf, subst_allOf, hplaces]
  | @inAny before after rule composite h ih =>
    rw [places_anyOf, List.flatMap_append, List.flatMap_cons] at hsame
    simp only [List.mem_append] at hsame
    rw [subst_anyOf, subst_anyOf, List.map_append, List.map_append, List.map_cons, List.map_cons,
      hother before fun i hi => hsame i (Or.inl hi),
      hother after fun i hi => hsame i (Or.inr (Or.inr hi)),
      ih fun i hi => hsame i (Or.inr (Or.inl hi))]
  | @inAll before after rule composite h ih =>
    rw [places_allOf, List.flatMap_append, List.flatMap_cons] at hsame
    simp only [List.mem_append] at hsame
    rw [subst_allOf, subst_allOf, List.map_append, List.map_append, List.map_cons, List.map_cons,
      hother before fun i hi => hsame i (Or.inl hi),
      hother after fun i hi => hsame i (Or.inr (Or.inr hi)),
      ih fun i hi => hsame i (Or.inr (Or.inl hi))]

/-- The limits are the same, those of the children in another place. -/
theorem limits_perm (h : Shares K first kids rule composite) :
    (kids.flatMap limits ++ composite.limits).Perm rule.limits := by
  have hnone : (placesFrom first kids.length : List (Rule ι)).flatMap limits = [] := by
    simp [placesFrom, List.flatMap_map]
  have hinside : ∀ before after : List (Rule ι), ∀ rule composite : Rule ι,
      (kids.flatMap limits ++ composite.limits).Perm rule.limits →
      (kids.flatMap limits ++ (before ++ composite :: after).flatMap limits).Perm
        ((before ++ rule :: after).flatMap limits) := by
    intro before after rule composite h
    have hrest := (h.append_right (after.flatMap limits)).append_left (before.flatMap limits)
    rw [List.append_assoc] at hrest
    rw [List.flatMap_append, List.flatMap_append, List.flatMap_cons, List.flatMap_cons]
    exact (List.perm_append_comm_assoc ..).trans hrest
  induction h with
  | any made =>
    rw [made_eq anyOf made, limits_anyOf, limits_anyOf, hnone, List.append_nil]
  | all made =>
    rw [made_eq allOf made, limits_allOf, limits_allOf, hnone, List.append_nil]
  | inAny h ih =>
    rw [limits_anyOf, limits_anyOf]
    exact hinside _ _ _ _ ih
  | inAll h ih =>
    rw [limits_allOf, limits_allOf]
    exact hinside _ _ _ _ ih

end Shares

/-! ## 4. The rows after a composite was shared -/

/-- The rule with its places moved to other shared rules. -/
def moved (place : Nat → Nat) : Rule ι → Rule ι := fold limit anyOf allOf fun i => shared (place i)

/-- A shared rule keeps its index, or has it moved up by the rows that were put in before it. -/
def behind (first count i : Nat) : Nat := if i < first then i else i + count

theorem subst_moved (place : Nat → Nat) (tree : Nat → Rule ι) (rule : Rule ι) :
    (rule.moved place).subst tree = rule.subst fun i => tree (place i) := by
  induction rule using induct with
  | limit l => rfl
  | anyOf rules ih =>
    rw [moved, fold, foldEach_eq_map, subst_anyOf, subst_anyOf, List.map_map]
    exact congrArg anyOf (List.map_congr_left ih)
  | allOf rules ih =>
    rw [moved, fold, foldEach_eq_map, subst_allOf, subst_allOf, List.map_map]
    exact congrArg allOf (List.map_congr_left ih)
  | shared i => rfl

theorem limits_moved (place : Nat → Nat) (rule : Rule ι) :
    (rule.moved place).limits = rule.limits := by
  induction rule using induct with
  | limit l => rfl
  | anyOf rules ih =>
    rw [moved, fold, foldEach_eq_map, limits_anyOf, limits_anyOf, List.flatMap_map]
    exact congrArg List.flatten (List.map_congr_left ih)
  | allOf rules ih =>
    rw [moved, fold, foldEach_eq_map, limits_allOf, limits_allOf, List.flatMap_map]
    exact congrArg List.flatten (List.map_congr_left ih)
  | shared i => rfl

/-- The trees of some rows and of more rows after them. -/
def extend (ts rows : List (Rule ι)) : List (Rule ι) :=
  rows.foldl (fun trees row => trees ++ [row.subst (pick trees)]) ts

theorem trees_append (rows more : List (Rule ι)) :
    trees (rows ++ more) = extend (trees rows) more := by
  rw [trees, List.foldl_append]
  rfl

theorem extend_append (ts rows more : List (Rule ι)) :
    extend ts (rows ++ more) = extend (extend ts rows) more := by
  rw [extend, List.foldl_append]
  rfl

/-- Rows that refer to earlier ones only do not see each other. -/
theorem extend_of_closed {ts kids : List (Rule ι)} (h : ∀ i ∈ kids.flatMap places, i < ts.length) :
    extend ts kids = ts ++ kids.map (subst (pick ts)) := by
  induction kids using List.reverseRecOn with
  | nil => simp [extend]
  | append_singleton kids kid ih =>
    rw [List.flatMap_append, List.flatMap_singleton] at h
    have hkid : kid.subst (pick (ts ++ kids.map (subst (pick ts)))) = kid.subst (pick ts) := by
      refine subst_congr fun i hi => ?_
      exact pick_append_left (h i (List.mem_append_right _ hi))
    rw [extend_append, ih fun i hi => h i (List.mem_append_left _ hi), List.map_append,
      ← List.append_assoc]
    exact congrArg (ts ++ kids.map (subst (pick ts)) ++ [·]) hkid

theorem pick_behind (ts us rest : List (Rule ι)) (i : Nat) :
    pick (ts ++ us ++ rest) (behind ts.length us.length i) = pick (ts ++ rest) i := by
  unfold behind
  split
  · rename_i h
    rw [List.append_assoc, pick_append_left h, pick_append_left h]
  · rename_i h
    rw [pick_append_right (by simp; omega), pick_append_right (by omega), List.length_append]
    congr 1
    omega

/-- The rows behind are as before. -/
theorem extend_moved (ts us rest rows : List (Rule ι)) :
    ∃ more, extend (ts ++ rest) rows = ts ++ more ∧
      extend (ts ++ us ++ rest) (rows.map (moved (behind ts.length us.length)))
        = ts ++ us ++ more := by
  induction rows generalizing rest with
  | nil => exact ⟨rest, rfl, rfl⟩
  | cons row rows ih =>
    have hrow : (row.moved (behind ts.length us.length)).subst (pick (ts ++ us ++ rest))
        = row.subst (pick (ts ++ rest)) := by
      rw [subst_moved]
      exact subst_congr fun i _ => pick_behind ts us rest i
    obtain ⟨more, hbefore, hafter⟩ := ih (rest ++ [row.subst (pick (ts ++ rest))])
    refine ⟨more, ?_, ?_⟩
    · rw [← hbefore, ← List.append_assoc]
      rfl
    · rw [← hafter, ← List.append_assoc, ← hrow]
      rfl

end Rule

/-! ## 5. Sharing changes no answer -/

namespace Stopping

open Rule

variable {K ι L : Type}

/-- One composite has its children shared, in the root or in a shared rule.  The children are put
in before it, and what comes after them is referred to by other indices. -/
inductive Shares (K : Type) : Stopping ι → Stopping ι → Prop
  | root {shared kids root composite} (closed : ∀ i ∈ root.places, i < shared.length)
      (h : Rule.Shares K shared.length kids root composite) :
      Shares K ⟨shared, root⟩ ⟨shared ++ kids, composite⟩
  | row {before after kids row composite root} (closed : ∀ i ∈ row.places, i < before.length)
      (h : Rule.Shares K before.length kids row composite) :
      Shares K ⟨before ++ row :: after, root⟩
        ⟨before ++ kids ++ composite :: after.map (moved (behind before.length kids.length)),
          root.moved (behind before.length kids.length)⟩

variable {plan other : Stopping ι}

/-- The tree of paths of a composite whose children were shared. -/
theorem paths_shares {rows kids : List (Rule ι)} {rule composite : Rule ι}
    (closed : ∀ i ∈ rule.places, i < rows.length)
    (h : Rule.Shares K rows.length kids rule composite) :
    trees (rows ++ kids) = trees rows ++ kids.map (subst (pick (trees rows))) ∧
      composite.subst (pick (trees (rows ++ kids))) = rule.subst (pick (trees rows)) := by
  have htrees : trees (rows ++ kids) = trees rows ++ kids.map (subst (pick (trees rows))) := by
    rw [trees_append]
    refine extend_of_closed fun i hi => ?_
    rw [length_trees]
    exact closed i (h.places_subset i hi)
  refine ⟨htrees, ?_⟩
  rw [htrees]
  refine h.subst_eq ?_ ?_
  · intro j hj
    rw [← length_trees rows, pick_append_right (by omega), Nat.add_sub_cancel_left, pick,
      List.getElem?_eq_getElem (by simpa using hj)]
    simp
  · intro i hi
    refine pick_append_left ?_
    rw [length_trees]
    exact closed i hi

/-- **Sharing the children of a composite keeps the tree of paths.** -/
theorem Shares.tree_eq (h : Shares K plan other) : other.tree = plan.tree := by
  cases h with
  | root closed h => exact (paths_shares closed h).2
  | @row before after kids row composite root closed h =>
    obtain ⟨htrees, hcomposite⟩ := paths_shares closed h
    obtain ⟨more, hold, hnew⟩ := extend_moved (trees before)
      (kids.map (subst (pick (trees before)))) [row.subst (pick (trees before))] after
    rw [length_trees, List.length_map] at hnew
    have hold' : trees (before ++ row :: after) = trees before ++ more := by
      rw [trees_append]
      exact hold
    have hnew' : trees (before ++ kids ++
          composite :: after.map (moved (behind before.length kids.length)))
        = trees before ++ kids.map (subst (pick (trees before))) ++ more := by
      rw [trees_append, ← hnew, ← hcomposite, ← htrees]
      rfl
    rw [tree, tree, paths, paths, hold', hnew', subst_moved]
    refine subst_congr fun i _ => ?_
    have hpick := pick_behind (trees before) (kids.map (subst (pick (trees before)))) more i
    rw [length_trees, List.length_map] at hpick
    exact hpick

/-- Sharing moves limits, and renames none. -/
theorem Shares.limits_perm (h : Shares K plan other) :
    (other.shared.flatMap limits ++ other.root.limits).Perm
      (plan.shared.flatMap limits ++ plan.root.limits) := by
  cases h with
  | root closed h =>
    rw [List.flatMap_append, List.append_assoc]
    exact h.limits_perm.append_left _
  | @row before after kids row composite root closed h =>
    have hafter : (after.map (moved (behind before.length kids.length))).flatMap limits
        = after.flatMap limits := by
      rw [List.flatMap_map]
      exact congrArg List.flatten (List.map_congr_left fun rule _ => limits_moved _ rule)
    have hrow := ((h.limits_perm.append_right (after.flatMap limits)).append_left
      (before.flatMap limits)).append_right root.limits
    simp only [List.flatMap_append, List.flatMap_cons, hafter, limits_moved, List.append_assoc]
      at hrow ⊢
    exact hrow

/-- **Sharing the children of a composite changes no answer.** -/
theorem Shares.askAll_eq [DecidableEq ι] (h : Shares K plan other) (hplan : plan.Distinct)
    (queries : List (L → Bool × L)) (store : ι → L) :
    (askAll queries (other.map store)).1 = (askAll queries (plan.map store)).1 :=
  askAll_eq_of_tree hplan (h.limits_perm.nodup_iff.2 hplan) h.tree_eq queries store

/-- **What stopping criteria answer.**  A tree over new limits answers every question by its
formula, an iteration limit read as a bound on the number of questions and a stagnation limit as one
on the questions since the earliest minimum; and all its limits are asked all questions.  Any
stopping criterion has names for its limits.  It answers by the tree of its paths, in which the
limits are asked from left to right, those of a shared rule once for each path from the root to the
rule.  To share the children of a composite changes no answer. -/
theorem formula_of_paths {X : Type} [Scalar K] [IsStrictTotalOrder K (· < ·)] [Solution K X] :
    (∀ {shared : List (Rule (Limit K))} {root : Rule (Limit K)}, root.places = [] →
      (∀ l ∈ root.limits, l.Fresh) →
      ∀ (qs : List (Question X)) (rng : Generator) (lines : Array (Line K)),
      ∃ answers, result ((stopper Limit.ask).askAll qs) ⟨⟨shared, root⟩, rng, lines⟩
          = (.ok answers, ⟨⟨shared, root.map (limitAfter (Limit.queries qs))⟩, rng, lines⟩) ∧
        answers.length = qs.length ∧
        ∀ k < qs.length, answers[k]? = some (root.value
          (Limit.verdict ((qs.take (k + 1)).map fun q => objective q.best)))) ∧
    (∀ {L : Type} (s : Stopping L), ∃ plan : Stopping (L × Nat),
      plan.Distinct ∧ plan.map Prod.fst = s) ∧
    ∀ {ι L : Type} [DecidableEq ι] {plan : Stopping ι}, plan.Distinct →
      plan.tree.places = [] ∧
      (∀ (query : L → Bool × L) (store : ι → L), (plan.map store).ask query
        = (answer query store [] plan.tree,
          plan.map (storeAfter query store plan.tree.limits))) ∧
      (∀ i row, plan.shared[i]? = some row → ∀ l ∈ row.limits,
        plan.tree.limits.count l = plan.visits.count i) ∧
      (∀ l ∈ plan.root.limits, plan.tree.limits.count l = 1) ∧
      ∀ {other : Stopping ι}, Shares K plan other →
        ∀ (queries : List (L → Bool × L)) (store : ι → L),
          (askAll queries (other.map store)).1 = (askAll queries (plan.map store)).1 := by
  refine ⟨?_, exists_plan, ?_⟩
  · intro shared root hplain hfresh qs rng lines
    obtain ⟨hlength, hanswers, hlast⟩ := askAll_plain shared hplain (Limit.queries qs)
    refine ⟨_, ?_, hlength.trans (by simp [Limit.queries]), ?_⟩
    · rw [result_askAll]
      simp only
      rw [← hlast]
      rfl
    · intro k hk
      have hquery : (Limit.queries qs)[k]?
          = some (Limit.ask qs[k].now (objective qs[k].best) : Limit K → _) := by
        simp [Limit.queries, hk]
      rw [hanswers k _ hquery, List.take_succ_eq_append_getElem hk]
      refine congrArg some (value_congr fun l hl => ?_)
      rw [← Limit.answer_of_fresh (hfresh l hl), Limit.queries, Limit.queries, List.map_take]
  · intro ι L _ plan hplan
    refine ⟨places_subst (places_pick plan.shared) plan.root, ask_tree hplan, ?_, ?_, ?_⟩
    · intro i row hrow l hl
      exact (count_limits_tree hplan).1 i row hrow hl
    · intro l hl
      exact (count_limits_tree hplan).2 hl
    · intro other h queries store
      exact h.askAll_eq hplan queries store

/-- Two limits, one of them reached by two paths. -/
def twice : Stopping Nat where
  shared := [.limit 0]
  root := .anyOf [.shared 0, .allOf [.shared 0, .limit 1]]

/-- The same after the children of the root were shared. -/
def twiceShared : Stopping Nat where
  shared := [.limit 0, .shared 0, .allOf [.shared 0, .limit 1]]
  root := .anyOf [.shared 1, .shared 2]

theorem distinct_twice : twice.Distinct := by
  unfold Distinct
  decide

theorem shares_twice : Shares ℚ twice twiceShared :=
  .root (by decide) (.any rfl)

open Countdown in
/-- After two questions with the same objective both limits of a tree are reached, and the first of
two limits is asked twice in a round where two paths lead to it. -/
theorem formula_of_paths_twice :
    (∃ answers v, result ((stopper Limit.ask).askAll [⟨0, (⟨5⟩ : Level ℚ), ⟨5⟩⟩, ⟨1, ⟨5⟩, ⟨6⟩⟩])
        ⟨⟨[], .allOf [.limit (.iterations ⟨1, 0⟩), .limit (.stagnation ⟨1, 0, none⟩)]⟩, ⟨0, 1⟩, #[]⟩
          = (.ok answers, v) ∧ answers[1]? = some true) ∧
    twice.tree.limits.count 0 = 2 ∧
    ∀ (queries : List (IterationLimit → Bool × IterationLimit)) (store : Nat → IterationLimit),
      (askAll queries (twiceShared.map store)).1 = (askAll queries (twice.map store)).1 := by
  obtain ⟨htrees, -, hgraphs⟩ := formula_of_paths (K := ℚ) (X := Level ℚ)
  obtain ⟨-, -, hcount, -, hshares⟩ := hgraphs (L := IterationLimit) distinct_twice
  refine ⟨?_, ?_, fun queries store => hshares shares_twice queries store⟩
  · obtain ⟨answers, hrun, -, hanswers⟩ := @htrees []
      (.allOf [.limit (.iterations ⟨1, 0⟩), .limit (.stagnation ⟨1, 0, none⟩)]) (by simp)
      (by simp [Limit.Fresh]) [⟨0, ⟨5⟩, ⟨5⟩⟩, ⟨1, ⟨5⟩, ⟨6⟩⟩] ⟨0, 1⟩ #[]
    have hearliest : earliest ([] ++ (5 : ℚ) :: [5]) = 1 := earliest_eq (by simp) (by simp)
    refine ⟨answers, _, hrun, ?_⟩
    rw [hanswers 1 (by simp), value_allOf]
    show some (decide (1 < 2) && (decide (1 ≤ 2 - earliest ([] ++ (5 : ℚ) :: [5])) && true))
      = some true
    rw [hearliest]
    rfl
  · rw [hcount 0 (.limit 0) rfl 0 (by simp)]
    rfl

end Stopping

end LargeNeighbourhood
