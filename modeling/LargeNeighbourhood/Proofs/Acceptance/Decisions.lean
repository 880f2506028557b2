/-
# Decisions in a row

A criterion decides again and again, each time about other solutions and with the generator as the
search left it.  An `Occasion` is all a decision sees besides the criterion: the three objectives,
the generator, and the lines said so far.  `Criterion.after` is the criterion after a list of
occasions, in whatever order a search brings them.

Beside the definitions stand the answers and the steps of the criteria that later modules follow
through a whole list.
-/
import Mathlib
import LargeNeighbourhood.Proofs.Acceptance.Reachable

namespace LargeNeighbourhood

open Act

/-! ## 1. Occasions -/

/-- What a decision sees besides the criterion. -/
structure Occasion (K : Type) where
  best : K
  current : K
  candidate : K
  rng : Generator
  lines : Array (Line K) := #[]

/-- The fraction that a decision on this occasion draws, if it draws one. -/
def Occasion.fraction {K : Type} [Scalar K] (x : Occasion K) : K := (Draw.uniform x.rng).1

namespace Criterion

variable {K : Type} [Scalar K] [Elementary K] {c : Criterion K} {x : Occasion K}
  {xs : List (Occasion K)}

/-- What the decision on an occasion comes to, and the setting it leaves. -/
def face (c : Criterion K) (x : Occasion K) : Except (Fault K) Bool × Setting K (Criterion K) :=
  result (accept x.best x.current x.candidate) ⟨c, x.rng, x.lines⟩

/-- The answer on an occasion. -/
def answer (c : Criterion K) (x : Occasion K) : Except (Fault K) Bool := (c.face x).1

/-- The criterion after an occasion. -/
def step (c : Criterion K) (x : Occasion K) : Criterion K := (c.face x).2.own

/-- The criterion after some occasions. -/
def after (c : Criterion K) (xs : List (Occasion K)) : Criterion K := xs.foldl step c

@[simp] theorem after_nil : c.after [] = c := rfl

theorem after_concat : c.after (xs ++ [x]) = (c.after xs).step x := by
  simp [after]

/-- What every decision keeps is true after any of them. -/
theorem after_induction {P : Criterion K → Prop} (h : P c) (hstep : ∀ d x, P d → P (d.step x))
    (xs : List (Occasion K)) : P (c.after xs) := by
  induction xs using List.reverseRecOn with
  | nil => exact h
  | append_singleton xs x ih =>
    rw [after_concat]
    exact hstep _ x ih

/-- A criterion that no decision changes stays as it is. -/
theorem after_of_step_eq (hstep : ∀ x, c.step x = c) (xs : List (Occasion K)) : c.after xs = c :=
  after_induction (P := (· = c)) rfl (fun _ x hd => hd ▸ hstep x) xs

/-! ## 2. Single decisions -/

@[simp] theorem answer_hillClimbing :
    (hillClimbing : Criterion K).answer x = .ok (decide (x.candidate ≤ x.current)) := rfl

@[simp] theorem step_hillClimbing : (hillClimbing : Criterion K).step x = hillClimbing := rfl

@[simp] theorem answer_lateAcceptance (s : LateAcceptance K) :
    (lateAcceptance s).answer x = .ok (s.accept x.current x.candidate).1 := rfl

@[simp] theorem step_lateAcceptance (s : LateAcceptance K) :
    (lateAcceptance s).step x = lateAcceptance (s.accept x.current x.candidate).2 := rfl

@[simp] theorem answer_movingAverage (s : MovingAverage K) :
    (movingAverage s).answer x = .ok (s.accept x.candidate).1 := rfl

@[simp] theorem step_movingAverage (s : MovingAverage K) :
    (movingAverage s).step x = movingAverage (s.accept x.candidate).2 := rfl

theorem answer_simulatedAnnealing (s : SimulatedAnnealing K) :
    (simulatedAnnealing s).answer x
      = .ok (decide (x.fraction
          ≤ Elementary.exp ((x.current - x.candidate) / s.temperature))) := by
  obtain ⟨said, h⟩ := SimulatedAnnealing.result_accept x.current x.candidate ⟨s, x.rng, x.lines⟩
  rw [answer, face, accept_simulatedAnnealing, h]
  rfl

/-- Whatever a decision of annealing says, the temperature takes its step and the chance is
recorded. -/
theorem step_simulatedAnnealing (s : SimulatedAnnealing K) :
    (simulatedAnnealing s).step x
      = simulatedAnnealing
          (s.settle (Elementary.exp ((x.current - x.candidate) / s.temperature))
            (decide (x.fraction
              ≤ Elementary.exp ((x.current - x.candidate) / s.temperature)))) := by
  obtain ⟨said, h⟩ := SimulatedAnnealing.result_accept x.current x.candidate ⟨s, x.rng, x.lines⟩
  rw [step, face, accept_simulatedAnnealing, h]
  rfl

/-- Annealing stays annealing. -/
theorem exists_after_simulatedAnnealing (s : SimulatedAnnealing K) (xs : List (Occasion K)) :
    ∃ s', (simulatedAnnealing s).after xs = simulatedAnnealing s' := by
  refine after_induction (P := fun c => ∃ s', c = simulatedAnnealing s') ⟨s, rfl⟩ ?_ xs
  rintro - x ⟨s', rfl⟩
  exact ⟨_, step_simulatedAnnealing s'⟩

@[simp] theorem answer_recordToRecord (r : RecordToRecord K) :
    (recordToRecord r).answer x = .ok (decide (x.candidate - x.best ≤ r.threshold)) := rfl

@[simp] theorem step_recordToRecord (r : RecordToRecord K) :
    (recordToRecord r).step x
      = recordToRecord { r with threshold := r.method.next r.finish r.threshold r.step } := rfl

@[simp] theorem answer_thresholdAcceptance (r : RecordToRecord K) :
    (thresholdAcceptance r).answer x = .ok (decide (x.candidate - x.current ≤ r.threshold)) := rfl

@[simp] theorem step_thresholdAcceptance (r : RecordToRecord K) :
    (thresholdAcceptance r).step x
      = thresholdAcceptance { r with threshold := r.method.next r.finish r.threshold r.step } :=
  rfl

/-- Random acceptance compares the candidate with the current solution, and where that does not
settle it, a fraction with the probability. -/
theorem answer_randomAccept (r : RandomAccept K) :
    (randomAccept r).answer x
      = .ok (decide (x.candidate < x.current) || decide (x.fraction < r.probability)) := by
  rw [answer, face, accept_randomAccept, RandomAccept.accept]
  by_cases h : x.candidate < x.current
  · rw [if_pos h, decide_eq_true h]
    rfl
  · rw [if_neg h, decide_eq_false h]
    rfl

theorem step_randomAccept (r : RandomAccept K) :
    (randomAccept r).step x = randomAccept r.advance := by
  rw [step, face, accept_randomAccept, RandomAccept.accept_snd]

end Criterion

end LargeNeighbourhood
