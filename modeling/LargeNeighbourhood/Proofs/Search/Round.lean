/-
# Rounds

A round is one whole iteration as its calls see it: the two solutions it begins with, and the
answers it gets.  Everything else about an iteration is a function of these.

* `Round.exchanges`: the calls, in order, with their answers.  They fall into those that propose a
  candidate, the question to the criterion, and those that conclude the round.
* `Round.outcome`: what became of the candidate.
* `Round.nextBest`, `Round.nextCurrent`: the two solutions the next iteration begins with.

A round is lawful (`Round.Lawful`) if its pair is permitted and the callback was asked exactly
when there is one and the candidate is a new best solution.

`Engine.Rounds` is a run as a sequence of lawful rounds, each of which begins with the solutions
the one before it ended with, and `Engine.Ends` says how a run stops doing rounds.
-/
import LargeNeighbourhood.Proofs.Search.Exchange

namespace LargeNeighbourhood

/-- The name at an index of a registry. -/
def Registry.nameAt {α : Type} (r : Registry α) (i : Nat) : String :=
  (r.entries[i]?.map Entry.name).getD ""

/-! ## 1. One round -/

/-- The solutions an iteration begins with, and the answers it gets. -/
structure Round (X : Type) where
  best : X
  current : X
  pair : Nat × Nat
  destroyed : X
  candidate : X
  accepted : Bool
  /-- What the callback made of the candidate, if it was asked. -/
  polished? : Option X

namespace Round

variable {K X ω : Type} [Solution K X] [LT K] [DecidableLT K]

/-- The candidate is a new best solution. -/
def Improves (r : Round X) : Prop := objective r.candidate < objective r.best

instance (r : Round X) : Decidable r.Improves :=
  inferInstanceAs (Decidable (objective r.candidate < objective r.best))

omit [Solution K X] [LT K] [DecidableLT K] in
/-- The candidate, or what the callback made of it. -/
def improved (r : Round X) : X := r.polished?.getD r.candidate

/-- A new best solution counts as such whatever the criterion said. -/
def outcome (r : Round X) : Outcome :=
  if r.Improves then .best
  else if r.accepted then
    if objective r.candidate < objective r.current then .better else .accept
  else .reject

theorem outcome_eq_best_iff {r : Round X} : r.outcome = .best ↔ r.Improves := by
  unfold outcome
  by_cases hi : r.Improves
  · simp [hi]
  · rw [if_neg hi]
    split
    · split <;> simp [hi]
    · simp [hi]

/-- Where a new best solution is accepted, the outcome is a rejection exactly when the criterion
said no. -/
theorem outcome_eq_reject_iff {r : Round X} (h : r.Improves → r.accepted = true) :
    r.outcome = .reject ↔ r.accepted = false := by
  unfold outcome
  by_cases hi : r.Improves
  · simp [hi, h hi]
  · cases ha : r.accepted with
    | false => simp [hi]
    | true =>
      rw [if_neg hi, if_pos rfl]
      split <;> simp

/-- The best solution after the round. -/
def nextBest (r : Round X) : X := if r.Improves then r.improved else r.best

/-- Without an answer of the callback a candidate that is better is the next best solution. -/
theorem nextBest_eq {r : Round X} (h : r.polished? = none) :
    r.nextBest = if objective r.candidate < objective r.best then r.candidate else r.best := by
  unfold nextBest improved
  rw [h]
  rfl

/-- The current solution after the round. -/
def nextCurrent (r : Round X) : X :=
  if r.Improves then r.improved else if r.accepted then r.candidate else r.current

omit [Solution K X] [LT K] [DecidableLT K] in
/-- The call to the callback, if there was one. -/
def polishing (r : Round X) : List (Exchange X) :=
  (r.polished?.map fun y => ⟨.onBest r.candidate, .solution (some y)⟩).toList

/-- The calls of a round and their answers. -/
def exchanges (r : Round X) : List (Exchange X) :=
  [⟨.shouldStop r.best r.current, .verdict false⟩,
    ⟨.select r.best r.current, .pair (Pair.ofNat r.pair)⟩,
    ⟨.destroy r.pair.1 r.current, .solution (some r.destroyed)⟩,
    ⟨.repair r.pair.2 r.destroyed, .solution (some r.candidate)⟩,
    ⟨.accept r.best r.current r.candidate, .verdict r.accepted⟩] ++
  r.polishing ++ [⟨.update r.candidate (Pair.ofNat r.pair) r.outcome, .noted⟩]

/-- The calls of a round. -/
theorem mem_calls (r : Round X) {call : Call X} (h : call ∈ r.exchanges.map Exchange.call) :
    call = .shouldStop r.best r.current ∨ call = .select r.best r.current ∨
      call = .destroy r.pair.1 r.current ∨ call = .repair r.pair.2 r.destroyed ∨
      call = .accept r.best r.current r.candidate ∨
      (r.polished?.isSome = true ∧ call = .onBest r.candidate) ∨
      call = .update r.candidate (Pair.ofNat r.pair) r.outcome := by
  cases hp : r.polished? <;> simpa [exchanges, polishing, hp] using h

omit [Solution K X] [LT K] [DecidableLT K] in
/-- The calls of a round before the criterion is asked. -/
def proposing (r : Round X) : List (Exchange X) :=
  [⟨.shouldStop r.best r.current, .verdict false⟩,
    ⟨.select r.best r.current, .pair (Pair.ofNat r.pair)⟩,
    ⟨.destroy r.pair.1 r.current, .solution (some r.destroyed)⟩,
    ⟨.repair r.pair.2 r.destroyed, .solution (some r.candidate)⟩]

omit [Solution K X] [LT K] [DecidableLT K] in
/-- The question to the criterion. -/
def question (r : Round X) : Exchange X :=
  ⟨.accept r.best r.current r.candidate, .verdict r.accepted⟩

/-- The calls of a round after the criterion was asked. -/
def concluding (r : Round X) : List (Exchange X) :=
  r.polishing ++ [⟨.update r.candidate (Pair.ofNat r.pair) r.outcome, .noted⟩]

theorem exchanges_eq_question (r : Round X) :
    r.exchanges = r.proposing ++ r.question :: r.concluding := by
  simp [exchanges, proposing, question, concluding]

/-- The pair is permitted, and the callback was asked exactly when there is one and the candidate
is a new best solution. -/
structure Lawful (e : Engine K X ω) (coupling : Coupling) (r : Round X) : Prop where
  permitted : coupling.allows r.pair.1 r.pair.2 = true
  polished_iff : r.polished?.isSome = true ↔ e.onBest?.isSome = true ∧ r.Improves

omit [DecidableLT K] in
/-- Without a callback no round has an answer of one. -/
theorem Lawful.polished?_eq_none {e : Engine K X ω} {coupling : Coupling} {r : Round X}
    (h : r.Lawful e coupling) (he : e.onBest? = none) : r.polished? = none := by
  have hiff := h.polished_iff
  rw [he] at hiff
  simpa using hiff

/-- The entry of a round in the record of the run. -/
def turn (e : Engine K X ω) (r : Round X) : Turn X where
  destroy := e.destroy.nameAt r.pair.1
  repair := e.repair.nameAt r.pair.2
  outcome := r.outcome
  best := r.nextBest
  current := r.nextCurrent

end Round

/-! ## 2. A run as rounds -/

namespace Engine

variable {K X ω σ α τ : Type} [Solution K X]

/-- Where a run stands that begins now at an initial solution. -/
def opening (now : Int) (initial : X) : Progress K X where
  best := initial
  current := initial
  statistics := ((({} : Statistics K)).recordObjective (objective initial)).recordTime now

variable [LT K] [DecidableLT K]
variable (e : Engine K X ω) (m : Methods K X σ α τ) (coupling : Coupling) (clock : Nat → Int)

/-- From the first progress and setting the run goes through these rounds to the second. -/
inductive Rounds : Progress K X → Setting K (Parts X ω σ α τ) → List (Round X) →
    Progress K X → Setting K (Parts X ω σ α τ) → Prop
  | nil {p w} : Rounds p w [] p w
  | cons {p w r v said rs q u}
      (best : r.best = p.best) (current : r.current = p.current)
      (lawful : r.Lawful e coupling)
      (performed : e.Performs m (clock (2 * p.statistics.iterations + 1)) w r.exchanges v)
      (rest : Rounds (recorded (clock (2 * p.statistics.iterations + 2)) p (r.turn e))
        (v.saying said) rs q u) :
      Rounds p w (r :: rs) q u

/-- A lawful round was begun that some call broke off. -/
structure Cut (p : Progress K X) (w : Setting K (Parts X ω σ α τ)) (r : Round X)
    (answered : List (Exchange X)) (call : Call X) (f : Fault K)
    (v : Setting K (Parts X ω σ α τ)) : Prop where
  best : r.best = p.best
  current : r.current = p.current
  lawful : r.Lawful e coupling
  interrupted : e.Interrupted m coupling (clock (2 * p.statistics.iterations + 1)) w r.exchanges
    answered call f v

/-- How a run ends that stands at `p` in the setting `w`: the calls that are still answered, the
call that breaks it off, what comes back, and the setting it leaves. -/
inductive Ends (p : Progress K X) (w : Setting K (Parts X ω σ α τ)) :
    List (Exchange X) → Option (Call X) → Except (Fault K) (Option (Progress K X)) →
    Setting K (Parts X ω σ α τ) → Prop
  /-- The rule says stop. -/
  | stopped {v said}
      (asked : e.Exchanged m (clock (2 * p.statistics.iterations + 1)) w
        ⟨.shouldStop p.best p.current, .verdict true⟩ v) :
      Ends p w [⟨.shouldStop p.best p.current, .verdict true⟩] none (.ok (some p))
        (v.saying said)
  /-- The fuel is used up. -/
  | exhausted : Ends p w [] none (.ok none) w
  /-- A call of the next round fails or is answered with what cannot be used. -/
  | failed {r answered call f v} (cut : e.Cut m coupling clock p w r answered call f v) :
      Ends p w answered (some call) (.error f) v

end Engine

end LargeNeighbourhood
