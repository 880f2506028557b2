/-
# The formula of a rule

A rule without shared rules is a tree, and a question to it is answered by its formula: `or` at the
nodes that stop with any child, `and` at those that stop with all, and at each limit its own answer
(`ask_plain`).  The answers of the others make no difference to what becomes of a limit: every limit
of the tree is asked with every question to the root.  So after any number of questions the tree
is the same tree over limits that were asked as often (`Stopping.askAll_plain`).

What remains is what a single limit answers.  An iteration limit counts the questions.  A
stagnation limit counts the questions since the earliest minimum of the objectives it was shown
(`StagnationLimit.foldl_observe`).
-/
import LargeNeighbourhood.Proofs.Act
import LargeNeighbourhood.Stopping.Limit
import LargeNeighbourhood.Stopping.Rule
import Mathlib.Data.List.Induction
import Mathlib.Order.Defs.Unbundled

namespace LargeNeighbourhood

open Act

namespace Rule

variable {L M β : Type}

/-! ## 1. Recursion over rules -/

section Fold

variable (limit : L → β) (any all : List β → β) (shared : Nat → β)

mutual

/-- What comes of a rule if this comes of its limits, its composites and its places for shared
rules. -/
def fold : Rule L → β
  | .limit l => limit l
  | .anyOf rules => any (foldEach rules)
  | .allOf rules => all (foldEach rules)
  | .shared i => shared i

/-- The same of each of some rules. -/
def foldEach : List (Rule L) → List β
  | [] => []
  | rule :: rules => fold rule :: foldEach rules

end

theorem foldEach_eq_map (rules : List (Rule L)) :
    foldEach limit any all shared rules = rules.map (fold limit any all shared) := by
  induction rules with
  | nil => rfl
  | cons rule rules ih =>
    rw [foldEach, ih]
    rfl

end Fold

/-- A property of rules that composites have if all their children have it. -/
@[elab_as_elim]
theorem induct {motive : Rule L → Prop} (limit : ∀ l, motive (.limit l))
    (anyOf : ∀ rules, (∀ rule ∈ rules, motive rule) → motive (.anyOf rules))
    (allOf : ∀ rules, (∀ rule ∈ rules, motive rule) → motive (.allOf rules))
    (shared : ∀ i, motive (.shared i)) : ∀ rule, motive rule
  | .limit l => limit l
  | .anyOf rules => anyOf rules fun rule _ => induct limit anyOf allOf shared rule
  | .allOf rules => allOf rules fun rule _ => induct limit anyOf allOf shared rule
  | .shared i => shared i

/-- The value of the formula, given that of the limits.  A place for a shared rule has none. -/
def value (verdict : L → Bool) : Rule L → Bool :=
  fold verdict (fun answers => answers.any id) (fun answers => answers.all id) fun _ => false

/-- The same rule over other limits. -/
def map (f : L → M) : Rule L → Rule M := fold (fun l => .limit (f l)) anyOf allOf shared

/-- The limits from left to right. -/
def limits : Rule L → List L := fold (fun l => [l]) List.flatten List.flatten fun _ => []

/-- The shared rules that the rule asks, from left to right, each as often as it has a place. -/
def places : Rule L → List Nat := fold (fun _ => []) List.flatten List.flatten fun i => [i]

section Equations

variable (verdict : L → Bool) (f : L → M) (rules : List (Rule L)) (l : L) (i : Nat)

@[simp] theorem value_limit : (limit l).value verdict = verdict l := rfl

@[simp] theorem value_anyOf :
    (anyOf rules).value verdict = rules.any fun rule => rule.value verdict := by
  rw [value, fold, foldEach_eq_map, List.any_map]
  rfl

@[simp] theorem value_allOf :
    (allOf rules).value verdict = rules.all fun rule => rule.value verdict := by
  rw [value, fold, foldEach_eq_map, List.all_map]
  rfl

@[simp] theorem map_limit : (limit l).map f = limit (f l) := rfl

@[simp] theorem map_anyOf : (anyOf rules).map f = anyOf (rules.map (map f)) := by
  rw [map, fold, foldEach_eq_map]

@[simp] theorem map_allOf : (allOf rules).map f = allOf (rules.map (map f)) := by
  rw [map, fold, foldEach_eq_map]

@[simp] theorem map_shared : (shared i : Rule L).map f = shared i := rfl

@[simp] theorem limits_limit : (limit l).limits = [l] := rfl

@[simp] theorem limits_anyOf : (anyOf rules).limits = rules.flatMap limits := by
  rw [limits, fold, foldEach_eq_map, List.flatMap]

@[simp] theorem limits_allOf : (allOf rules).limits = rules.flatMap limits := by
  rw [limits, fold, foldEach_eq_map, List.flatMap]

@[simp] theorem limits_shared : (shared i : Rule L).limits = [] := rfl

@[simp] theorem places_limit : (limit l).places = [] := rfl

@[simp] theorem places_anyOf : (anyOf rules).places = rules.flatMap places := by
  rw [places, fold, foldEach_eq_map, List.flatMap]

@[simp] theorem places_allOf : (allOf rules).places = rules.flatMap places := by
  rw [places, fold, foldEach_eq_map, List.flatMap]

@[simp] theorem places_shared : (shared i : Rule L).places = [i] := rfl

end Equations

variable {rule : Rule L}

theorem map_congr {f g : L → M} (h : ∀ l ∈ rule.limits, f l = g l) : rule.map f = rule.map g := by
  induction rule using induct with
  | limit l => rw [map_limit, map_limit, h l (by simp)]
  | anyOf rules ih =>
    rw [map_anyOf, map_anyOf]
    refine congrArg anyOf (List.map_congr_left fun rule hr => ih rule hr ?_)
    intro l hl
    exact h l (by simpa using ⟨rule, hr, hl⟩)
  | allOf rules ih =>
    rw [map_allOf, map_allOf]
    refine congrArg allOf (List.map_congr_left fun rule hr => ih rule hr ?_)
    intro l hl
    exact h l (by simpa using ⟨rule, hr, hl⟩)
  | shared i => rfl

theorem map_id (rule : Rule L) : rule.map id = rule := by
  induction rule using induct with
  | limit l => rfl
  | anyOf rules ih =>
    rw [map_anyOf, List.map_congr_left ih, List.map_id']
  | allOf rules ih =>
    rw [map_allOf, List.map_congr_left ih, List.map_id']
  | shared i => rfl

/-- A fold over other limits. -/
theorem fold_map {limit : M → β} {any all : List β → β} {place : Nat → β} (f : L → M)
    (rule : Rule L) :
    (rule.map f).fold limit any all place = rule.fold (fun l => limit (f l)) any all place := by
  induction rule using induct with
  | limit l => rfl
  | anyOf rules ih =>
    rw [map_anyOf, fold, fold, foldEach_eq_map, foldEach_eq_map, List.map_map]
    exact congrArg any (List.map_congr_left ih)
  | allOf rules ih =>
    rw [map_allOf, fold, fold, foldEach_eq_map, foldEach_eq_map, List.map_map]
    exact congrArg all (List.map_congr_left ih)
  | shared i => rfl

theorem map_map {N : Type} (f : L → M) (g : M → N) (rule : Rule L) :
    (rule.map f).map g = rule.map fun l => g (f l) :=
  fold_map f rule

theorem value_map (f : L → M) (verdict : M → Bool) (rule : Rule L) :
    (rule.map f).value verdict = rule.value fun l => verdict (f l) :=
  fold_map f rule

theorem places_map (f : L → M) (rule : Rule L) : (rule.map f).places = rule.places :=
  fold_map f rule

theorem value_congr {verdict verdict' : L → Bool} (h : ∀ l ∈ rule.limits, verdict l = verdict' l) :
    rule.value verdict = rule.value verdict' := by
  have hvalue := congrArg (value id) (map_congr h)
  rw [value_map, value_map] at hvalue
  exact hvalue

/-! ## 2. One question to a tree -/

section Ask

variable {S : Type} {query : L → Bool × L} {byIndex : Nat → StateM S Bool} {s : S}

/-- If each child answers by its value and becomes another rule, so do all in a row. -/
theorem askEach_eq {rules : List (Rule L)} {answer : Rule L → Bool} {next : Rule L → Rule L}
    (h : ∀ rule ∈ rules, rule.ask query byIndex s = ((answer rule, next rule), s)) :
    askEach query byIndex rules s = ((rules.map answer, rules.map next), s) := by
  induction rules with
  | nil => rfl
  | cons rule rules ih =>
    obtain ⟨hrule, hrules⟩ := List.forall_mem_cons.1 h
    have hrest := ih hrules
    simp only [askEach, bind, StateT.bind, hrule, hrest]
    rfl

/-- **A tree answers by its formula, and all its limits are asked once.** -/
theorem ask_plain (h : rule.places = []) :
    rule.ask query byIndex s
      = ((rule.value fun l => (query l).1, rule.map fun l => (query l).2), s) := by
  induction rule using induct with
  | limit l => rfl
  | anyOf rules ih =>
    have hchildren := askEach_eq (fun rule hr => ih rule hr
      (List.flatMap_eq_nil_iff.1 ((places_anyOf rules).symm.trans h) rule hr))
    simp only [ask, bind, StateT.bind, hchildren, value_anyOf, map_anyOf]
    exact congrArg (fun stop => ((stop, anyOf _), s)) List.any_map
  | allOf rules ih =>
    have hchildren := askEach_eq (fun rule hr => ih rule hr
      (List.flatMap_eq_nil_iff.1 ((places_allOf rules).symm.trans h) rule hr))
    simp only [ask, bind, StateT.bind, hchildren, value_allOf, map_allOf]
    exact congrArg (fun stop => ((stop, allOf _), s)) List.all_map
  | shared i => exact absurd h (by simp)

end Ask

end Rule

/-! ## 3. Questions in a row -/

/-- A question of a search to its rule: the time, and the best and the current solution. -/
structure Question (X : Type) where
  now : Int
  best : X
  current : X

/-- Some questions, one after another. -/
def Stopper.askAll {K X τ : Type} (m : Stopper K X τ) : List (Question X) → Act K τ (List Bool)
  | [] => return []
  | q :: qs => do
    let stop ← m.ask q.now q.best q.current
    let stops ← m.askAll qs
    return stop :: stops

namespace Stopping

variable {K L X : Type}

/-- Some questions, one after another, by what each does to a limit. -/
def askAll : List (L → Bool × L) → Stopping L → List Bool × Stopping L
  | [], s => ([], s)
  | query :: queries, s =>
    ((s.ask query).1 :: (askAll queries (s.ask query).2).1, (askAll queries (s.ask query).2).2)

/-- What a limit is after some questions. -/
def limitAfter (queries : List (L → Bool × L)) (l : L) : L :=
  queries.foldl (fun l query => (query l).2) l

section Stopper

variable [Solution K X] {query : Int → K → L → Bool × L}

/-- A search asks with the time and the best objective. -/
theorem result_ask (now : Int) (best current : X) (w : Setting K (Stopping L)) :
    result ((stopper query).ask now best current) w
      = (.ok (w.own.ask (query now (objective best))).1,
        { w with own := (w.own.ask (query now (objective best))).2 }) := rfl

theorem result_askAll (qs : List (Question X)) (w : Setting K (Stopping L)) :
    result ((stopper query).askAll qs) w
      = (.ok (w.own.askAll (qs.map fun q => query q.now (objective q.best))).1,
        { w with own := (w.own.askAll (qs.map fun q => query q.now (objective q.best))).2 }) := by
  induction qs generalizing w with
  | nil => rfl
  | cons q qs ih =>
    rw [Stopper.askAll, result_bind, result_ask]
    simp only
    rw [result_bind, ih]
    rfl

end Stopper

/-- **Any number of questions to a tree.**  The answer to each is the value of the formula for the
limits as the questions before left them, and at the end all limits were asked all questions. -/
theorem askAll_plain (shared : List (Rule L)) {root : Rule L} (h : root.places = [])
    (queries : List (L → Bool × L)) :
    (askAll queries ⟨shared, root⟩).1.length = queries.length ∧
    (∀ k (query : L → Bool × L), queries[k]? = some query →
      (askAll queries ⟨shared, root⟩).1[k]?
        = some (root.value fun l => (query (limitAfter (queries.take k) l)).1)) ∧
    (askAll queries ⟨shared, root⟩).2 = ⟨shared, root.map (limitAfter queries)⟩ := by
  induction queries generalizing root with
  | nil =>
    refine ⟨rfl, by simp, ?_⟩
    rw [askAll, show limitAfter (L := L) [] = id from rfl, Rule.map_id]
  | cons query queries ih =>
    have hask : ask query ⟨shared, root⟩
        = (root.value fun l => (query l).1, ⟨shared, root.map fun l => (query l).2⟩) := by
      rw [ask, Rule.ask_plain h]
    obtain ⟨hlength, hanswers, hlast⟩ :=
      ih ((Rule.places_map (fun l => (query l).2) root).trans h)
    rw [askAll, hask]
    refine ⟨by simp [hlength], ?_, ?_⟩
    · intro k q hk
      cases k with
      | zero =>
        cases hk
        rfl
      | succ k =>
        rw [List.getElem?_cons_succ] at hk
        rw [List.getElem?_cons_succ, hanswers k q hk, Rule.value_map]
        rfl
    · rw [hlast, Rule.map_map]
      rfl

end Stopping

/-! ## 4. Single limits -/

section Order

variable {K : Type} [LT K] [DecidableLT K]

/-- The position of the earliest minimum among some values, counted from one. -/
def earliest (xs : List K) : Nat := (xs.findIdx fun x => xs.all fun y => !decide (y < x)) + 1

/-- What stands before the earliest minimum is greater, and what stands after it is not less. -/
theorem earliest_eq {before after : List K} {x : K} [IsStrictOrder K (· < ·)]
    (hbefore : ∀ y ∈ before, x < y) (hafter : ∀ y ∈ after, ¬y < x) :
    earliest (before ++ x :: after) = before.length + 1 := by
  have hleast : ((before ++ x :: after).all fun y => !decide (y < x)) = true := by
    rw [List.all_eq_true]
    intro y hy
    rw [Bool.not_eq_true', decide_eq_false_iff_not]
    rcases List.mem_append.1 hy with hy | hy
    · exact asymm_of (· < ·) (hbefore y hy)
    · rcases List.mem_cons.1 hy with rfl | hy
      · exact irrefl_of (· < ·) y
      · exact hafter y hy
  have hskip : ∀ z ∈ before,
      ((before ++ x :: after).all fun y => !decide (y < z)) = false := by
    intro z hz
    rw [List.all_eq_false]
    exact ⟨x, by simp, by simpa using hbefore z hz⟩
  unfold earliest
  rw [List.findIdx_append, List.findIdx_eq_length.2 hskip]
  simp only [Nat.lt_irrefl, if_false, List.findIdx_cons, hleast, cond_true, Nat.zero_add]

namespace StagnationLimit

/-- **A stagnation limit counts from the earliest minimum on.** -/
theorem foldl_observe [IsStrictTotalOrder K (· < ·)] {c : StagnationLimit K}
    (hc : c.target? = none) (first : K) (rest : List K) :
    ∃ before x after, first :: rest = before ++ x :: after ∧ (∀ y ∈ before, x < y) ∧
      (∀ y ∈ after, ¬y < x) ∧
      (first :: rest).foldl observe c = { c with counter := after.length, target? := some x } := by
  induction rest using List.reverseRecOn with
  | nil => exact ⟨[], first, [], rfl, by simp, by simp, by simp [observe, improves, hc]⟩
  | append_singleton rest y ih =>
    obtain ⟨before, x, after, hsplit, hbefore, hafter, hstate⟩ := ih
    rw [← List.cons_append, List.foldl_append, hstate, hsplit]
    by_cases hy : y < x
    · refine ⟨before ++ x :: after, y, [], rfl, ?_, by simp, by simp [observe, improves, hy]⟩
      intro z hz
      rcases List.mem_append.1 hz with hz | hz
      · exact trans_of (· < ·) hy (hbefore z hz)
      · rcases List.mem_cons.1 hz with rfl | hz
        · exact hy
        · rcases trichotomous_of (· < ·) x z with hlt | rfl | hlt
          · exact trans_of (· < ·) hy hlt
          · exact hy
          · exact absurd hlt (hafter z hz)
    · refine ⟨before, x, after ++ [y], by simp, hbefore, ?_, by simp [observe, improves, hy]⟩
      intro z hz
      rcases List.mem_append.1 hz with hz | hz
      · exact hafter z hz
      · rw [List.mem_singleton.1 hz]
        exact hy

/-- What it answers to the last of some objectives. -/
theorem ask_foldl [IsStrictTotalOrder K (· < ·)] {c : StagnationLimit K} (hc : c.target? = none)
    (xs : List K) (y : K) :
    ((xs.foldl observe c).ask y).1
      = decide (c.limit ≤ (xs ++ [y]).length - earliest (xs ++ [y])) := by
  have hlast : ((xs.foldl observe c).ask y).1 = decide
      (((xs ++ [y]).foldl observe c).limit ≤ ((xs ++ [y]).foldl observe c).counter) := by
    rw [List.foldl_append]
    rfl
  obtain ⟨first, rest, hcons⟩ : ∃ first rest, xs ++ [y] = first :: rest :=
    List.exists_cons_of_ne_nil (by simp)
  obtain ⟨before, x, after, hsplit, hbefore, hafter, hstate⟩ := foldl_observe hc first rest
  have hlength : (before ++ x :: after).length - (before.length + 1) = after.length := by
    rw [List.length_append, List.length_cons]
    omega
  rw [hlast, hcons, hstate, hsplit, earliest_eq hbefore hafter, hlength]

end StagnationLimit

end Order

namespace Limit

variable {K X : Type} [Scalar K] [Solution K X]

/-- A new limit that looks at no clock. -/
def Fresh : Limit K → Prop
  | iterations c => c.asked = 0
  | stagnation c => c.counter = 0 ∧ c.target? = none
  | runtime _ => False

/-- What a new limit answers to the last of some questions with these objectives. -/
def verdict (xs : List K) : Limit K → Bool
  | iterations c => decide (c.limit < xs.length)
  | stagnation c => decide (c.limit ≤ xs.length - earliest xs)
  | runtime _ => false

/-- The questions of a search as each limit sees them. -/
def queries (qs : List (Question X)) : List (Limit K → Bool × Limit K) :=
  qs.map fun q => Limit.ask q.now (objective q.best)

theorem limitAfter_iterations (c : IterationLimit) (qs : List (Question X)) :
    Stopping.limitAfter (queries qs) (iterations c : Limit K)
      = iterations { c with asked := c.asked + qs.length } := by
  induction qs generalizing c with
  | nil => rfl
  | cons q qs ih =>
    show Stopping.limitAfter (queries qs) (iterations c.ask.2) = _
    have hasked : c.asked + 1 + qs.length = c.asked + (qs.length + 1) := by omega
    rw [ih, IterationLimit.ask, List.length_cons, ← hasked]

theorem limitAfter_stagnation (c : StagnationLimit K) (qs : List (Question X)) :
    Stopping.limitAfter (queries qs) (stagnation c)
      = stagnation ((qs.map fun q => objective q.best).foldl StagnationLimit.observe c) := by
  induction qs generalizing c with
  | nil => rfl
  | cons q qs ih => exact ih (c.ask (objective q.best)).2

/-- **What a new limit answers**, after any questions, to one more. -/
theorem answer_of_fresh [IsStrictTotalOrder K (· < ·)] {l : Limit K} (h : l.Fresh)
    (qs : List (Question X)) (q : Question X) :
    (Limit.ask q.now (objective q.best) (Stopping.limitAfter (queries qs) l)).1
      = l.verdict ((qs ++ [q]).map fun q => objective q.best) := by
  cases l with
  | iterations c =>
    rw [limitAfter_iterations]
    have hasked : c.asked = 0 := h
    simp [Limit.ask, IterationLimit.ask, verdict, hasked]
  | stagnation c =>
    rw [limitAfter_stagnation]
    rw [List.map_append]
    exact StagnationLimit.ask_foldl h.2 _ _
  | runtime c => exact absurd h id

end Limit

end LargeNeighbourhood
