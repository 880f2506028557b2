/-
# Runs with different collaborators

Whatever a run does beyond its calls is the search's own doing, and the same for all
collaborators.  So two runs agree as soon as their callees do, call by call
(`Engine.Alike.run`).

What a search says besides does not lead its run anywhere.  Where two runs agree in spite of what
they say of their progress, one of them may be talkative and the other not
(`Engine.Alike.run_talking`).

Of the criteria less is asked than of the others.  Two criteria may answer alike only about some
pairs of a best and a current solution.  `Engine.Alike` therefore names an invariant of the two:
every solution stands in it to itself, which is where a run begins and where a new best solution
leads, and whatever candidate the criteria take stands in it to the best solution.
-/
import LargeNeighbourhood.Proofs.Agreement
import LargeNeighbourhood.Proofs.Search.Calls

namespace LargeNeighbourhood

open Act

namespace Engine

variable {K X ω σ σ' α α' τ τ' : Type}

/-! ## 1. Questions for a solution

These are stated for any relation between settings that the journal respects. -/

section Solutions

variable {S : Setting K (Parts X ω σ α τ) → Setting K (Parts X ω σ' α' τ') → Prop}

/-- The search treats the three questions for a solution alike. -/
theorem agree_solution {β : Type} {act : Act K (Parts X ω σ α τ) (Option X)}
    {act' : Act K (Parts X ω σ' α' τ') (Option X)} (hact : Agree S Eq act act') (g : X → β)
    (missing : Fault K) :
    Agree S Eq
      (act >>= fun y? => match y? with
        | some y => pure (g y)
        | none => throw missing)
      (act' >>= fun y? => match y? with
        | some y => pure (g y)
        | none => throw missing) := by
  refine hact.bind_eq fun y? => ?_
  cases y? with
  | none => exact .throw _
  | some y => exact .pure rfl

variable {e : Engine K X ω}
  (henter : ∀ call, Agree S Eq (enter call : Act K (Parts X ω σ α τ) Unit)
    (enter call : Act K (Parts X ω σ' α' τ') Unit))
include henter

theorem agree_destroyAt {d : Nat} {x : X}
    (hop : ∀ op, e.destroy.entry d = (.ok op : Except (Fault K) _) → Agree S Eq
      (apply op.item x : Act K (Parts X ω σ α τ) _) (apply op.item x)) :
    Agree S Eq (e.destroyAt d x : Act K (Parts X ω σ α τ) (String × X))
      (e.destroyAt d x : Act K (Parts X ω σ' α' τ') (String × X)) := by
  unfold Engine.destroyAt
  refine (Agree.ofExcept _).bind ?_
  rintro op _ ⟨rfl, hentry⟩
  exact (henter _).bind_eq fun _ => agree_solution (hop op hentry) _ _

theorem agree_repairAt {r : Nat} {x : X}
    (hop : ∀ op, e.repair.entry r = (.ok op : Except (Fault K) _) → Agree S Eq
      (apply op.item x : Act K (Parts X ω σ α τ) _) (apply op.item x)) :
    Agree S Eq (e.repairAt r x : Act K (Parts X ω σ α τ) (String × X))
      (e.repairAt r x : Act K (Parts X ω σ' α' τ') (String × X)) := by
  unfold Engine.repairAt
  refine (Agree.ofExcept _).bind ?_
  rintro op _ ⟨rfl, hentry⟩
  exact (henter _).bind_eq fun _ => agree_solution (hop op hentry) _ _

theorem agree_polish {y : X}
    (hop : ∀ op, e.onBest? = some op → Agree S Eq
      (apply op y : Act K (Parts X ω σ α τ) _) (apply op y)) :
    Agree S Eq (e.polish y : Act K (Parts X ω σ α τ) X)
      (e.polish y : Act K (Parts X ω σ' α' τ') X) := by
  unfold Engine.polish
  rcases hset : e.onBest? with _ | op
  · exact .pure rfl
  · exact (henter _).bind_eq fun _ => agree_solution (hop op hset) _ _

end Solutions

variable [Solution K X] [LT K]

/-- The callees of two runs agree, the criteria as long as the best and the current solution stand
in a relation, which they keep up. -/
structure Alike (e : Engine K X ω) (m : Methods K X σ α τ) (m' : Methods K X σ' α' τ')
    (S : Setting K (Parts X ω σ α τ) → Setting K (Parts X ω σ' α' τ') → Prop)
    (Inv : X → X → Prop) : Prop where
  refl : ∀ x, Inv x x
  coupling : ∀ {w w'}, S w w' →
    m.selector.coupling w.own.scheme = m'.selector.coupling w'.own.scheme
  say : ∀ line, Agree S Eq (sayIf e.verbose line) (sayIf e.verbose line)
  enter : ∀ call, Agree S Eq (enter call) (enter call)
  callee : ∀ now call, (∀ b c y, call ≠ .accept b c y) →
    Agree S Eq (e.callee m now call) (e.callee m' now call)
  criterion : ∀ now {b c} y, Inv b c →
    Agree S (fun a a' => a = a' ∧ (a = .verdict true → ¬objective y < objective b → Inv b y))
      (e.callee m now (.accept b c y)) (e.callee m' now (.accept b c y))

namespace Alike

variable {e : Engine K X ω} {m : Methods K X σ α τ} {m' : Methods K X σ' α' τ'}
  {S : Setting K (Parts X ω σ α τ) → Setting K (Parts X ω σ' α' τ') → Prop}
  {Inv : X → X → Prop} {coupling : Coupling} {p : Progress K X}

/-! ## 2. Single calls -/

theorem shouldStop (h : Alike e m m' S Inv) (now : Int) (p : Progress K X) :
    Agree S Eq (Engine.shouldStop m now p) (Engine.shouldStop m' now p) := by
  refine (h.enter _).bind_eq fun _ => ?_
  have hcallee := h.callee now (.shouldStop p.best p.current) (by simp)
  exact Agree.of_map hcallee |>.mono fun _ _ heq => Answer.verdict.inj heq

theorem select (h : Alike e m m' S Inv) (coupling : Coupling) (p : Progress K X) :
    Agree S Eq (Engine.select m coupling p) (Engine.select m' coupling p) := by
  refine (h.enter _).bind_eq fun _ => ?_
  have hcallee := h.callee 0 (.select p.best p.current) (by simp)
  refine (Agree.of_map hcallee |>.mono fun _ _ heq => Answer.pair.inj heq).bind_eq fun pair => ?_
  cases coupling.legal? pair with
  | none => exact .throw _
  | some dr => exact .pure rfl

theorem destroyAt (h : Alike e m m' S Inv) (d : Nat) (x : X) :
    Agree S Eq (e.destroyAt d x : Act K (Parts X ω σ α τ) (String × X))
      (e.destroyAt d x : Act K (Parts X ω σ' α' τ') (String × X)) := by
  refine agree_destroyAt h.enter fun op hop => ?_
  have hcallee := h.callee 0 (.destroy d x) (by simp)
  rw [callee_destroy m 0 hop, callee_destroy m' 0 hop] at hcallee
  exact hcallee.of_map.mono fun _ _ heq => Answer.solution.inj heq

theorem repairAt (h : Alike e m m' S Inv) (r : Nat) (x : X) :
    Agree S Eq (e.repairAt r x : Act K (Parts X ω σ α τ) (String × X))
      (e.repairAt r x : Act K (Parts X ω σ' α' τ') (String × X)) := by
  refine agree_repairAt h.enter fun op hop => ?_
  have hcallee := h.callee 0 (.repair r x) (by simp)
  rw [callee_repair m 0 hop, callee_repair m' 0 hop] at hcallee
  exact hcallee.of_map.mono fun _ _ heq => Answer.solution.inj heq

theorem polish (h : Alike e m m' S Inv) (y : X) :
    Agree S Eq (e.polish y : Act K (Parts X ω σ α τ) X)
      (e.polish y : Act K (Parts X ω σ' α' τ') X) := by
  refine agree_polish h.enter fun op hop => ?_
  have hcallee := h.callee 0 (.onBest y) (by simp)
  rw [callee_onBest m 0 hop, callee_onBest m' 0 hop] at hcallee
  exact hcallee.of_map.mono fun _ _ heq => Answer.solution.inj heq

theorem report (h : Alike e m m' S Inv) (y : X) (pair : Pair) (o : Outcome) :
    Agree S Eq (Engine.report m y pair o) (Engine.report m' y pair o) := by
  refine (h.enter _).bind_eq fun _ => ?_
  have hcallee := h.callee 0 (.update y pair o) (by simp)
  exact hcallee.of_map.mono fun _ _ _ => rfl

theorem accepts (h : Alike e m m' S Inv) (hp : Inv p.best p.current) (y : X) :
    Agree S (fun a a' => a = a' ∧ (a = true → ¬objective y < objective p.best → Inv p.best y))
      (Engine.accepts m p y) (Engine.accepts m' p y) := by
  refine (h.enter _).bind_eq fun _ => ?_
  refine (h.criterion 0 y hp).of_map.mono ?_
  rintro a a' ⟨heq, hinv⟩
  exact ⟨Answer.verdict.inj heq, fun ha => hinv (congrArg _ ha)⟩

/-! ## 3. Whole iterations

The second search may be more or less talkative than the first. -/

section Talking

variable [DecidableLT K] {verbose : Bool}
  (hsay : ∀ line : Line K, line.channel = .progress →
    Agree S Eq (sayIf e.verbose line) (sayIf verbose line))
include hsay

theorem evaluate (h : Alike e m m' S Inv) (hp : Inv p.best p.current) (y : X) :
    Agree S (fun t t' => t = t' ∧ Inv t.2.1 t.2.2) (e.evaluate m p y)
      ({ e with verbose }.evaluate m' p y) := by
  refine (h.accepts hp y).bind ?_
  rintro a _ ⟨rfl, hinv⟩
  by_cases hlt : objective y < objective p.best
  · simp only [if_pos hlt]
    refine (hsay _ rfl).bind_eq fun _ => (h.polish y).bind_eq fun z => ?_
    exact .pure ⟨rfl, h.refl z⟩
  · simp only [if_neg hlt]
    refine .pure ⟨rfl, ?_⟩
    cases a with
    | true => exact hinv rfl hlt
    | false => exact hp

theorem turn (h : Alike e m m' S Inv) (coupling : Coupling) (hp : Inv p.best p.current) :
    Agree S (fun t t' => t = t' ∧ Inv t.best t.current) (e.turn m coupling p)
      ({ e with verbose }.turn m' coupling p) := by
  refine (h.select coupling p).bind_eq fun dr => ?_
  refine (h.destroyAt dr.1 p.current).bind_eq fun destroyed => ?_
  refine (h.repairAt dr.2 destroyed.2).bind_eq fun repaired => ?_
  refine (h.evaluate hsay hp repaired.2).bind ?_
  rintro t _ ⟨rfl, hinv⟩
  refine (h.report repaired.2 _ t.1).bind_eq fun _ => ?_
  exact .pure ⟨rfl, hinv⟩

/-! ## 4. Whole runs -/

theorem loop (h : Alike e m m' S Inv) (coupling : Coupling) (clock : Nat → Int) (fuel : Nat)
    (hp : Inv p.best p.current) :
    Agree S Eq (e.loop m coupling clock fuel p)
      ({ e with verbose }.loop m' coupling clock fuel p) := by
  induction fuel generalizing p with
  | zero => exact .pure rfl
  | succ fuel ih =>
    unfold Engine.loop
    refine (h.shouldStop _ p).bind_eq fun stop => ?_
    cases stop with
    | true => exact (hsay _ rfl).bind_eq fun _ => .pure rfl
    | false =>
      refine (h.turn hsay coupling hp).bind ?_
      rintro t _ ⟨rfl, hinv⟩
      have hconclude : Agree S (fun q q' => q = q' ∧ Inv q.best q.current)
          (e.conclude (clock (2 * p.statistics.iterations + 2)) p t)
          ({ e with verbose }.conclude (clock (2 * p.statistics.iterations + 2)) p t) :=
        (hsay _ rfl).bind_eq fun _ => .pure ⟨rfl, hinv⟩
      refine hconclude.bind ?_
      rintro q _ ⟨rfl, hq⟩
      exact ih hq

/-- **Runs whose callees agree, agree,** whichever of them talks. -/
theorem run_talking (h : Alike e m m' S Inv) (clock : Nat → Int) (fuel : Nat)
    (initial? : Option X) :
    Agree S Eq (e.run m clock fuel initial?) ({ e with verbose }.run m' clock fuel initial?) := by
  have hown : Agree S (fun q q' => m.selector.coupling q.scheme = m'.selector.coupling q'.scheme)
      own own := by
    intro w w' hw
    exact ⟨.ok (h.coupling hw), hw⟩
  refine hown.bind fun q q' hcoupling => ?_
  rw [← hcoupling]
  refine (Agree.ofExcept _).bind ?_
  rintro ready _ ⟨rfl, -⟩
  have hstart : Agree S (fun p p' => p = p' ∧ Inv p.best p.current)
      (e.start (clock 0) ready.1) ({ e with verbose }.start (clock 0) ready.1) :=
    (hsay _ rfl).bind_eq fun _ => .pure ⟨rfl, h.refl ready.1⟩
  refine hstart.bind ?_
  rintro p _ ⟨rfl, hp⟩
  exact h.loop hsay ready.2 clock fuel hp

end Talking

/-- Runs of one search whose callees agree, agree. -/
theorem run [DecidableLT K] (h : Alike e m m' S Inv) (clock : Nat → Int) (fuel : Nat)
    (initial? : Option X) :
    Agree S Eq (e.run m clock fuel initial?) (e.run m' clock fuel initial?) :=
  h.run_talking (fun line _ => h.say line) clock fuel initial?

end Alike

end Engine

end LargeNeighbourhood
