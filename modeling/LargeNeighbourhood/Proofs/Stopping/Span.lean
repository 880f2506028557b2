/-
# How long a rule lets a search go on

A search goes on as long as its rule says no.  What a rule has counted by then follows from how
often it said no, and three rules say when they will say yes.

* A tree of iteration limits has a span (`Rule.span?`): that of a limit is what it counts to, that
  of `or` the least and that of `and` the greatest among the children.  The tree says yes when it
  was asked more often than its span (`Stopping.ask_span`).
* A rule that stops with any of its children says yes no later than an iteration limit among these,
  whatever the others are and answer (`Stopping.Counting.ask`).
* A stagnation limit says yes when it counted enough questions since the objective was last less
  (`Stopping.ask_stagnation`).
-/
import LargeNeighbourhood.Proofs.Stopping.Formula

namespace LargeNeighbourhood

/-! ## 1. Trees of iteration limits -/

section Span

variable {K : Type}

/-- What an iteration limit counts to that was asked so often. -/
def Limit.span? (asked : Nat) : Limit K → Option Nat
  | iterations c => if c.asked = asked then some c.limit else none
  | _ => none

namespace Rule

/-- How often a tree of iteration limits says no, if each limit was asked so often and each
composite has a child. -/
def span? (asked : Nat) : Rule (Limit K) → Option Nat :=
  fold (Limit.span? asked) (fun spans => spans.mapM id >>= List.min?)
    (fun spans => spans.mapM id >>= List.max?) fun _ => none

variable {rules : List (Rule (Limit K))} {rule : Rule (Limit K)} {asked n : Nat}

/-- If all of some values are there, these are they. -/
theorem eq_map_some {spans : List (Option Nat)} {ns : List Nat} (h : spans.mapM id = some ns) :
    spans = ns.map some := by
  induction spans generalizing ns with
  | nil =>
    cases h
    rfl
  | cons span spans ih =>
    simp only [List.mapM_cons, id_eq, Option.bind_eq_bind, Option.bind_eq_some_iff,
      Option.pure_def, Option.some.injEq] at h
    obtain ⟨n, rfl, rest, hrest, rfl⟩ := h
    rw [List.map_cons, ih hrest]

theorem span?_anyOf (h : (anyOf rules).span? asked = some n) :
    ∃ ns : List Nat, rules.map (span? asked) = ns.map some ∧ n ∈ ns ∧ ∀ k ∈ ns, n ≤ k := by
  rw [span?, fold, foldEach_eq_map] at h
  obtain ⟨ns, hns, hmin⟩ := Option.bind_eq_some_iff.1 h
  exact ⟨ns, eq_map_some hns, List.min?_eq_some_iff.1 hmin⟩

theorem span?_allOf (h : (allOf rules).span? asked = some n) :
    ∃ ns : List Nat, rules.map (span? asked) = ns.map some ∧ n ∈ ns ∧ ∀ k ∈ ns, k ≤ n := by
  rw [span?, fold, foldEach_eq_map] at h
  obtain ⟨ns, hns, hmax⟩ := Option.bind_eq_some_iff.1 h
  exact ⟨ns, eq_map_some hns, List.max?_eq_some_iff.1 hmax⟩

/-- The children of a composite that has a span have the spans it has it from. -/
theorem span?_of_mem {ns : List Nat} (hns : rules.map (span? asked) = ns.map some)
    (hrule : rule ∈ rules) : ∃ k ∈ ns, rule.span? asked = some k := by
  have hmem : rule.span? asked ∈ ns.map some := hns ▸ List.mem_map_of_mem hrule
  obtain ⟨k, hk, hspan⟩ := List.mem_map.1 hmem
  exact ⟨k, hk, hspan.symm⟩

theorem exists_of_span {ns : List Nat} {k : Nat} (hns : rules.map (span? asked) = ns.map some)
    (hk : k ∈ ns) : ∃ rule ∈ rules, rule.span? asked = some k := by
  have hmem : some k ∈ rules.map (span? asked) := hns ▸ List.mem_map_of_mem hk
  exact List.mem_map.1 hmem

/-- A tree with a span is a tree. -/
theorem places_of_span (h : rule.span? asked = some n) : rule.places = [] := by
  have hchildren : ∀ {rules : List (Rule (Limit K))} {ns : List Nat},
      rules.map (span? asked) = ns.map some →
      (∀ rule ∈ rules, ∀ {n}, rule.span? asked = some n → rule.places = []) →
      rules.flatMap places = [] := by
    intro rules ns hns ih
    rw [List.flatMap_eq_nil_iff]
    intro rule hrule
    obtain ⟨k, -, hk⟩ := span?_of_mem hns hrule
    exact ih rule hrule hk
  induction rule using induct generalizing n with
  | limit l => rfl
  | anyOf rules ih =>
    obtain ⟨ns, hns, -⟩ := span?_anyOf h
    rw [places_anyOf]
    exact hchildren hns ih
  | allOf rules ih =>
    obtain ⟨ns, hns, -⟩ := span?_allOf h
    rw [places_allOf]
    exact hchildren hns ih
  | shared i => exact absurd h (by simp [span?, fold])

/-- If each limit is reached when it was asked more often than it counts to, the tree is reached
when it was asked more often than its span. -/
theorem value_of_span {verdict : Limit K → Bool} {q : Nat}
    (hverdict : ∀ l n, l.span? asked = some n → verdict l = decide (n < q))
    (h : rule.span? asked = some n) : rule.value verdict = decide (n < q) := by
  induction rule using induct generalizing n with
  | limit l => exact hverdict l n h
  | anyOf rules ih =>
    obtain ⟨ns, hns, hmem, hleast⟩ := span?_anyOf h
    rw [value_anyOf, Bool.eq_iff_iff, List.any_eq_true, decide_eq_true_iff]
    constructor
    · rintro ⟨rule, hrule, hvalue⟩
      obtain ⟨k, hk, hspan⟩ := span?_of_mem hns hrule
      rw [ih rule hrule hspan, decide_eq_true_iff] at hvalue
      exact Nat.lt_of_le_of_lt (hleast k hk) hvalue
    · intro hlt
      obtain ⟨rule, hrule, hspan⟩ := exists_of_span hns hmem
      exact ⟨rule, hrule, by rw [ih rule hrule hspan, decide_eq_true hlt]⟩
  | allOf rules ih =>
    obtain ⟨ns, hns, hmem, hgreatest⟩ := span?_allOf h
    rw [value_allOf, Bool.eq_iff_iff, List.all_eq_true, decide_eq_true_iff]
    constructor
    · intro hvalues
      obtain ⟨rule, hrule, hspan⟩ := exists_of_span hns hmem
      have hvalue := hvalues rule hrule
      rw [ih rule hrule hspan, decide_eq_true_iff] at hvalue
      exact hvalue
    · intro hlt rule hrule
      obtain ⟨k, hk, hspan⟩ := span?_of_mem hns hrule
      rw [ih rule hrule hspan, decide_eq_true_iff]
      exact Nat.lt_of_le_of_lt (hgreatest k hk) hlt
  | shared i => exact absurd h (by simp [span?, fold])

end Rule

variable [Scalar K] {asked n : Nat}

/-- A limit with a span is reached once it was asked more often. -/
theorem Limit.ask_span {l : Limit K} (h : l.span? asked = some n) (now : Int) (best : K) :
    (l.ask now best).1 = decide (n < asked + 1) := by
  cases l with
  | iterations c =>
    obtain ⟨hasked, hn⟩ := Option.ite_none_right_eq_some.1 h
    cases hn
    rw [ask, IterationLimit.ask, hasked]
  | _ => exact absurd h (by simp [span?])

/-- A question leaves a limit its span. -/
theorem Limit.span?_ask (l : Limit K) (now : Int) (best : K) :
    (l.ask now best).2.span? (asked + 1) = l.span? asked := by
  cases l with
  | iterations c => simp [ask, IterationLimit.ask, span?]
  | _ => rfl

/-- **One question to a tree with a span.** -/
theorem Stopping.ask_span {s : Stopping (Limit K)} (h : s.root.span? asked = some n) (now : Int)
    (best : K) :
    (s.ask (Limit.ask now best)).1 = decide (n < asked + 1) ∧
      (s.ask (Limit.ask now best)).2.root.span? (asked + 1) = some n := by
  have hnext : (s.root.map fun l => (l.ask now best).2).span? (asked + 1) = some n := by
    rw [Rule.span?, Rule.fold_map]
    simp only [Limit.span?_ask]
    exact h
  rw [ask, Rule.ask_plain (Rule.places_of_span h)]
  exact ⟨Rule.value_of_span (fun l n hl => Limit.ask_span hl now best) h, hnext⟩

end Span

/-! ## 2. An iteration limit among others -/

section Counting

variable {L S : Type} {query : L → Bool × L}

/-- Of some rules that are all asked, a limit among them answers, and becomes what it becomes. -/
theorem Rule.mem_askEach (query : L → Bool × L) (byIndex : Nat → StateM S Bool)
    {rules : List (Rule L)} {l : L} (h : limit l ∈ rules) (s : S) :
    (query l).1 ∈ (askEach query byIndex rules s).1.1 ∧
      limit (query l).2 ∈ (askEach query byIndex rules s).1.2 := by
  induction rules generalizing s with
  | nil => exact absurd h List.not_mem_nil
  | cons rule rules ih =>
    rcases List.mem_cons.1 h with rfl | h
    · exact ⟨List.mem_cons_self .., List.mem_cons_self ..⟩
    · obtain ⟨hanswer, hnext⟩ := ih h (ask query byIndex rule s).2
      exact ⟨List.mem_cons_of_mem _ hanswer, List.mem_cons_of_mem _ hnext⟩

/-- The root stops with any of its children, and one of these is a limit that counts to `n` and was
asked so often. -/
def Stopping.Counting (count : IterationLimit → L) (n asked : Nat) (s : Stopping L) : Prop :=
  ∃ rules, s.root = .anyOf rules ∧ .limit (count ⟨n, asked⟩) ∈ rules

/-- **One question to such a root.**  It stops at the latest with that limit. -/
theorem Stopping.Counting.ask {count : IterationLimit → L} {n asked : Nat} {s : Stopping L}
    (h : s.Counting count n asked)
    (hcount : ∀ c : IterationLimit, query (count c) = (c.ask.1, count c.ask.2)) :
    (n < asked + 1 → (s.ask query).1 = true) ∧ (s.ask query).2.Counting count n (asked + 1) := by
  obtain ⟨rules, hroot, hmem⟩ := h
  obtain ⟨hanswer, hnext⟩ :=
    Rule.mem_askEach query (Rule.askShared query s.shared.length) hmem s.shared
  rw [hcount] at hanswer hnext
  rw [Stopping.ask, hroot]
  refine ⟨?_, _, rfl, hnext⟩
  intro hlt
  have hreached : true ∈ (Rule.askEach query (Rule.askShared query s.shared.length) rules
      s.shared).1.1 := by
    rw [IterationLimit.ask, decide_eq_true hlt] at hanswer
    exact hanswer
  exact List.any_eq_true.2 ⟨true, hreached, rfl⟩

end Counting

/-! ## 3. Stagnation -/

section Stagnation

variable {K : Type} [Scalar K]

/-- **One question to a stagnation limit** at the root. -/
theorem Stopping.ask_stagnation {s : Stopping (Limit K)} {c : StagnationLimit K}
    (h : s.root = .limit (.stagnation c)) (now : Int) (best : K) :
    s.ask (Limit.ask now best)
      = (decide ((c.observe best).limit ≤ (c.observe best).counter),
        { s with root := .limit (.stagnation (c.observe best)) }) := by
  rw [Stopping.ask, h]
  rfl

end Stagnation

end LargeNeighbourhood
