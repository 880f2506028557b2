/-
# Searches on packings

Removals and insertions pass feasibility on, so a search that uses no others only visits feasible
packings, whatever the scheme, the criterion and the rule do and whatever they draw.  Every
candidate, taken or not, is full.
-/
import Mathlib
import LargeNeighbourhood.Proofs.Knapsack.Operators
import LargeNeighbourhood.Proofs.Search.Length

namespace LargeNeighbourhood.Knapsack

open Act

section Runs

variable {K ω σ α τ : Type} [Field K] [LinearOrder K] [IsStrictOrderedRing K]

/-- Removals and insertions pass feasibility on: a removal leaves some of the items in, and an
insertion leaves all of them in and nothing out that fits. -/
theorem passesOn_feasible {problem : Problem K} {e : Engine K (Packing K) ω}
    (hweights : problem.WeightsNonneg) (hdestroy : ∀ op ∈ e.destroy.entries, Removal op.item)
    (hrepair : ∀ op ∈ e.repair.entries, Insertion op.item)
    (honBest : ∀ op, e.onBest? = some op → ∀ p, Packing.Feasible problem p → ∀ w q v,
      result (op p) w = (.ok (some q), v) → q.Feasible problem) :
    e.PassesOn (Packing.Feasible problem) (fun p q => q.chosen ⊆ p.chosen)
      (fun p q => p.chosen ⊆ q.chosen ∧ q.Full) where
  destroy := fun op hop _ hp => (hdestroy op hop).makes hweights hp
  repair := fun op hop _ hp => (hrepair op hop).makes hweights hp
  onBest := honBest

/-- **A search on packings visits feasible packings only.**  Let no item weigh less than nothing,
let every destroy operator be a removal, every repair operator an insertion, the callback, if there
is one, keep packings feasible, and the initial packing be feasible.  Then a run is refused by the
checks, and changes nothing, or it has an account in which

* every destroy operator made a feasible packing of some of the items of the packing it got, which
  was the current one,
* every repair operator made a feasible packing with the items of the packing it got, and no item
  that it left out fits,
* no operator broke the run off, and
* if the run was stopped, the best and the current packing are feasible.

The four operators, of which two sort, are removals and insertions. -/
theorem only_feasible_full_packings :
    ((Removal (operator Packing.removeRandom : Operator K (Packing K) ω) ∧
        Removal (operator Packing.removeWorst : Operator K (Packing K) ω)) ∧
      Insertion (operator fun p => pure p.insertGreedy : Operator K (Packing K) ω) ∧
        Insertion (operator Packing.insertRandom : Operator K (Packing K) ω)) ∧
    ∀ {problem : Problem K} {e : Engine K (Packing K) ω} {m : Methods K (Packing K) σ α τ}
      {clock : Nat → Int} {fuel : Nat} {initial : Packing K}
      {w v : Setting K (Parts (Packing K) ω σ α τ)}
      {res : Except (Fault K) (Option (Progress K (Packing K)))},
      (∀ item ∈ problem.items, 0 ≤ item.weight) → (∀ op ∈ e.destroy.entries, Removal op.item) →
      (∀ op ∈ e.repair.entries, Insertion op.item) →
      (∀ op, e.onBest? = some op → ∀ p, Packing.Feasible problem p → ∀ w q v,
        result (op p) w = (.ok (some q), v) → q.Feasible problem) →
      initial.Feasible problem → result (e.run m clock fuel (some initial)) w = (res, v) →
      (∃ f, e.prepare (m.selector.coupling w.own.scheme) (some initial) = .error f ∧
        res = .error f ∧ v = w) ∨
      ∃ coupling rounds tail broken?,
        e.Account m coupling clock initial w rounds tail broken? res v ∧
        Engine.Inherits (Packing.Feasible problem) (fun p q => q.chosen ⊆ p.chosen)
          (fun p q => p.chosen ⊆ q.chosen ∧ q.Full) (rounds.flatMap Round.exchanges ++ tail)
          broken? ∧
        ∀ p, res = .ok (some p) → p.best.Feasible problem ∧ p.current.Feasible problem := by
  refine ⟨⟨⟨.random, removal_worst⟩, insertion_greedy, .random⟩, ?_⟩
  intro problem e m clock fuel initial w v res hweights hdestroy hrepair honBest hinitial hrun
  rcases Engine.run_checked_cases hrun with
    hrefused | ⟨first, coupling, rounds, tail, broken?, hprepared, haccount⟩
  · exact Or.inl hrefused
  · obtain ⟨hfirst, ready⟩ := Engine.ready_of_prepare hprepared
    cases hfirst
    have hpass := passesOn_feasible hweights hdestroy hrepair honBest
    obtain ⟨hinherits, hlast⟩ := haccount.inherits ready.coupling_eq hpass hinitial
    exact Or.inr ⟨coupling, rounds, tail, broken?, haccount, hinherits, hlast⟩

end Runs

/-! ### A small search

Three items, one of them without weight, and the four operators. -/

namespace Satchel

/-- Of the first two items only one fits. -/
noncomputable def problem : Problem ℝ where
  items := #[⟨1, 3⟩, ⟨2, 2⟩, ⟨0, 1⟩]
  capacity := 2

/-- The four operators. -/
noncomputable def engine : Engine ℝ (Packing ℝ) Unit where
  destroy :=
    { role := "destroy"
      entries := [⟨"random_removal", operator Packing.removeRandom⟩,
        ⟨"worst_removal", operator Packing.removeWorst⟩] }
  repair :=
    { role := "repair"
      entries := [⟨"greedy_insertion", operator fun p => pure p.insertGreedy⟩,
        ⟨"random_insertion", operator Packing.insertRandom⟩] }

/-- A scheme and a rule of the library, and a criterion that takes every candidate. -/
noncomputable def methods : Methods ℝ (Packing ℝ) (Scheme ℝ (EpsilonGreedy ℝ)) Unit
    (Stopping (Limit ℝ)) where
  selector := Scheme.selector EpsilonGreedy.policy
  acceptor := { accept := fun _ _ _ => return true }
  stopper := Stopping.stopper Limit.ask

/-- All pairs are as likely. -/
def even : UniformChoice where
  table := .ofCoupling (Coupling.all 2 2) ⟨by decide, by decide, by decide⟩

/-- The search before a run of three iterations. -/
noncomputable def setting :
    Setting ℝ (Parts (Packing ℝ) Unit (Scheme ℝ (EpsilonGreedy ℝ)) Unit (Stopping (Limit ℝ))) where
  own :=
    { world := ()
      scheme := .uniform even
      criterion := ()
      stop := { root := .limit (.iterations ⟨3, 0⟩) } }
  rng := ⟨0, 1⟩

/-- What comes of the run from an empty satchel, and the setting it leaves. -/
noncomputable def ran : Except (Fault ℝ) (Option (Progress ℝ (Packing ℝ))) ×
    Setting ℝ (Parts (Packing ℝ) Unit (Scheme ℝ (EpsilonGreedy ℝ)) Unit (Stopping (Limit ℝ))) :=
  result (engine.run methods (fun n => (n : Int)) 4 (some (Packing.empty problem))) setting

theorem prepare_satchel : engine.prepare (Coupling.all 2 2) (some (Packing.empty problem))
    = .ok (Packing.empty problem, Coupling.all 2 2) := by
  with_unfolding_all rfl

theorem weightsNonneg_problem : problem.WeightsNonneg := by
  intro item hitem
  simp only [problem, List.mem_toArray, List.mem_cons, List.not_mem_nil, or_false] at hitem
  rcases hitem with rfl | rfl | rfl <;> norm_num

theorem feasible_empty : (Packing.empty problem).Feasible problem :=
  .empty (by norm_num [problem])

/-- Operators that draw always make a packing. -/
theorem total_satchel : engine.Total methods where
  rule := fun _ _ _ _ => ⟨_, _, rfl⟩
  criterion := fun _ _ _ _ => ⟨_, _, rfl⟩
  destroy := by
    intro op hop x w
    simp only [engine, List.mem_cons, List.not_mem_nil, or_false] at hop
    rcases hop with rfl | rfl
    · exact ⟨_, _, rfl⟩
    · exact ⟨_, _, rfl⟩
  repair := by
    intro op hop x w
    simp only [engine, List.mem_cons, List.not_mem_nil, or_false] at hop
    rcases hop with rfl | rfl
    · exact ⟨_, _, rfl⟩
    · exact ⟨_, _, rfl⟩
  onBest := fun _ hop => nomatch hop

/-- The run is stopped after three iterations. -/
theorem ran_eq : ∃ p v, ran = (.ok (some p), v) ∧ p.statistics.iterations = 3 := by
  have hspan : setting.own.stop.root.span? 0 = some 3 := rfl
  have hunbroken : engine.Unbroken methods (fun n => (n : Int)) (some (Packing.empty problem))
      setting := by
    have hmade : UniformChoice.make 2 2 none = (.ok even : Except (Fault ℝ) _) := rfl
    have hreach : Scheme.Reachable (Packing ℝ) setting.own.scheme := .uniform hmade
    exact Engine.unbroken_of_total rfl hreach prepare_satchel total_satchel
  obtain ⟨p, v, hrun⟩ := hunbroken.stopsBy (fun hrounds => (hrounds.spanned rfl hspan).1) 4
    (by decide)
  exact ⟨p, v, hrun, Engine.iterations_eq_span rfl hspan hrun⟩

end Satchel

open Satchel in
/-- The run from an empty satchel is stopped after three rounds, and visits feasible packings
only. -/
theorem only_feasible_full_packings_satchel :
    ∃ p coupling rounds tail broken?, ran.1 = .ok (some p) ∧ rounds.length = 3 ∧
      engine.Account methods coupling (fun n => (n : Int)) (Packing.empty problem) setting rounds
        tail broken? ran.1 ran.2 ∧
      Engine.Inherits (Packing.Feasible problem) (fun p q => q.chosen ⊆ p.chosen)
        (fun p q => p.chosen ⊆ q.chosen ∧ q.Full) (rounds.flatMap Round.exchanges ++ tail)
        broken? ∧
      p.best.Feasible problem ∧ p.current.Feasible problem := by
  obtain ⟨⟨⟨hrandom, hworst⟩, hgreedy, hshuffled⟩, hruns⟩ :=
    only_feasible_full_packings (K := ℝ) (ω := Unit) (σ := Scheme ℝ (EpsilonGreedy ℝ)) (α := Unit)
      (τ := Stopping (Limit ℝ))
  have hdestroy : ∀ op ∈ engine.destroy.entries, Removal op.item :=
    List.forall_mem_cons.2 ⟨hrandom, List.forall_mem_singleton.2 hworst⟩
  have hrepair : ∀ op ∈ engine.repair.entries, Insertion op.item :=
    List.forall_mem_cons.2 ⟨hgreedy, List.forall_mem_singleton.2 hshuffled⟩
  have honBest : ∀ op, engine.onBest? = some op → ∀ p, Packing.Feasible problem p → ∀ w q v,
      result (op p) w = (.ok (some q), v) → q.Feasible problem :=
    fun op hop => nomatch hop
  obtain ⟨p, v, hran, hcount⟩ := ran_eq
  rw [hran]
  rcases hruns weightsNonneg_problem hdestroy hrepair honBest feasible_empty hran with
    ⟨f, -, hfailed, -⟩ | ⟨coupling, rounds, tail, broken?, haccount, hinherits, hlast⟩
  · exact absurd hfailed (by simp)
  · exact ⟨p, coupling, rounds, tail, broken?, rfl, haccount.iterations_eq.symm.trans hcount,
      haccount, hinherits, hlast p rfl⟩

end LargeNeighbourhood.Knapsack
