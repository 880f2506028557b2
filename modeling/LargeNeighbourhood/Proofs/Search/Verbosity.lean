/-
# Talk leads nowhere

Three components report their progress if they are told to: the search itself, the segmented wheel
and annealing.  Each is told so by a flag among its data.  `Scheme.hushed` and `Criterion.hushed`
forget the flag, and two states are the same up to what they forget (`UpTo`).

Two runs that differ in these flags alone keep in step: their settings are related by
`Parts.UpTo`, and the same warnings were said (`Setting.Aside`).  Since the journal is part of the
setting, two runs in step have made the same calls, and one that fails has failed at the same call
as the other.

Of the callees that the library does not know (operators, callback, policy, rule) it is asked that
they do not listen to the progress that was said (`Act.Unswayed`).  Other schemes and criteria may
have flags of their own, so those are asked to be unswayed up to some function that forgets them.
-/
import Mathlib
import LargeNeighbourhood.Acceptance.Criterion
import LargeNeighbourhood.Proofs.Search.Agreement
import LargeNeighbourhood.Proofs.Search.Permitted
import LargeNeighbourhood.Proofs.Selection.Oblivious
import LargeNeighbourhood.Stopping.Rule

namespace LargeNeighbourhood

open Act

/-! ## 1. What it takes of the callees -/

/-- The two states are the same up to what the function forgets. -/
def UpTo {σ β : Type} (f : σ → β) (s s' : σ) : Prop := f s = f s'

/-- A scheme proposes, learns and keeps its coupling in spite of progress, and of what the function
forgets of its state. -/
structure Selector.Unswayed {K X σ : Type} (f : σ → σ) (s : Selector K X σ) : Prop where
  coupling : ∀ {t t'}, UpTo f t t' → s.coupling t = s.coupling t'
  select : ∀ best current,
    Agree (Setting.Aside (UpTo f)) Eq (s.select best current) (s.select best current)
  update : ∀ y pair o,
    Agree (Setting.Aside (UpTo f)) Eq (s.update y pair o) (s.update y pair o)

/-- The same of a criterion. -/
def Acceptor.Unswayed {K X α : Type} (f : α → α) (a : Acceptor K X α) : Prop :=
  ∀ best current candidate, Agree (Setting.Aside (UpTo f)) Eq (a.accept best current candidate)
    (a.accept best current candidate)

/-- A rule does not listen to progress. -/
def Stopper.Unswayed {K X τ : Type} (t : Stopper K X τ) : Prop :=
  ∀ now best current, Act.Unswayed (t.ask now best current)

/-- Nor does a policy. -/
structure Policy.Unswayed {K π : Type} (p : Policy K π) : Prop where
  predict : ∀ context, Act.Unswayed (p.predict context)
  update : ∀ arm reward context, Act.Unswayed (p.update arm reward context)

/-- Nor do the operators and the callback of a search. -/
structure Engine.Unswayed {K X ω : Type} (e : Engine K X ω) : Prop where
  destroy : ∀ op ∈ e.destroy.entries, ∀ x, Act.Unswayed (op.item x)
  repair : ∀ op ∈ e.repair.entries, ∀ x, Act.Unswayed (op.item x)
  onBest : ∀ op, e.onBest? = some op → ∀ x, Act.Unswayed (op x)

/-! ## 2. Runs in step -/

/-- Two settings of a search with the same operators' world, rule and journal, and the same scheme
and criterion up to what the functions forget. -/
structure Parts.UpTo {X ω σ α τ : Type} (f : σ → σ) (g : α → α) (q q' : Parts X ω σ α τ) : Prop where
  world : q.world = q'.world
  scheme : LargeNeighbourhood.UpTo f q.scheme q'.scheme
  criterion : LargeNeighbourhood.UpTo g q.criterion q'.criterion
  stop : q.stop = q'.stop
  journal : q.journal = q'.journal

namespace Engine

variable {K X ω σ α τ : Type} {e : Engine K X ω} {m : Methods K X σ α τ} {f : σ → σ} {g : α → α}

theorem agree_enter_aside (call : Call X) :
    Agree (Setting.Aside (Parts.UpTo f g)) Eq (enter call : Act K (Parts X ω σ α τ) Unit)
      (enter call) :=
  .change_aside fun _ _ h =>
    ⟨h.world, h.scheme, h.criterion, h.stop, congrArg (·.push call) h.journal⟩

theorem agree_apply_aside {op : Operator K X ω} {x : X} (hop : Act.Unswayed (op x)) :
    Agree (Setting.Aside (Parts.UpTo f g)) Eq (apply op x : Act K (Parts X ω σ α τ) (Option X))
      (apply op x) :=
  hop.on_aside (fun _ _ h => h.world) fun _ _ _ _ h ht =>
    ⟨ht, h.scheme, h.criterion, h.stop, h.journal⟩

theorem agree_scheme_aside {β : Type} {act : Act K σ β}
    (hact : Agree (Setting.Aside (UpTo f)) Eq act act) :
    Agree (Setting.Aside (Parts.UpTo f g)) Eq
      (act.on Parts.scheme fun scheme q => { q with scheme } : Act K (Parts X ω σ α τ) β)
      (act.on Parts.scheme fun scheme q => { q with scheme }) :=
  hact.on_aside (fun _ _ h => h.scheme) fun _ _ _ _ h ht =>
    ⟨h.world, ht, h.criterion, h.stop, h.journal⟩

/-- **The callees do not listen,** so what they answer is the same on both sides. -/
theorem alike_aside [Solution K X] [LT K] (he : e.Unswayed) (hs : m.selector.Unswayed f)
    (ha : m.acceptor.Unswayed g) (ht : m.stopper.Unswayed) :
    e.Alike m m (Setting.Aside (Parts.UpTo f g)) fun _ _ => True where
  refl := fun _ => True.intro
  coupling := fun hw => hs.coupling hw.own.scheme
  say := fun _ => .sayIf_of_warnings rfl
  enter := agree_enter_aside
  callee := by
    intro now call hcall
    cases call with
    | accept b c y => exact absurd rfl (hcall b c y)
    | shouldStop b c =>
      refine Agree.map ?_ fun _ _ h => congrArg Answer.verdict h
      exact (ht now b c).on_aside (fun _ _ h => h.stop) fun _ _ _ _ h ht =>
        ⟨h.world, h.scheme, h.criterion, ht, h.journal⟩
    | select b c =>
      exact (agree_scheme_aside (hs.select b c)).map fun _ _ h => congrArg Answer.pair h
    | update y pair o =>
      exact (agree_scheme_aside (hs.update y pair o)).map fun _ _ _ => rfl
    | destroy d x =>
      refine (Agree.ofExcept _).bind ?_
      rintro op _ ⟨rfl, hop⟩
      exact (agree_apply_aside (he.destroy op (Registry.mem_of_entry hop) x)).map
        fun _ _ h => congrArg Answer.solution h
    | repair r x =>
      refine (Agree.ofExcept _).bind ?_
      rintro op _ ⟨rfl, hop⟩
      exact (agree_apply_aside (he.repair op (Registry.mem_of_entry hop) x)).map
        fun _ _ h => congrArg Answer.solution h
    | onBest y =>
      unfold callee
      rcases hset : e.onBest? with _ | op
      · exact .throw _
      · exact (agree_apply_aside (he.onBest op hset y)).map
          fun _ _ h => congrArg Answer.solution h
  criterion := by
    intro now b c y _
    refine Agree.map ?_ fun _ _ h => ⟨congrArg Answer.verdict h, fun _ _ => True.intro⟩
    exact (ha b c y).on_aside (fun _ _ h => h.criterion) fun _ _ _ _ h ht =>
      ⟨h.world, h.scheme, ht, h.stop, h.journal⟩

end Engine

/-! ## 3. Schemes -/

/-- The segmented wheel without its flag. -/
def Segmented.hushed {K : Type} (s : Segmented K) : Segmented K := { s with verbose := false }

/-- A scheme without its flag, if it has one. -/
def Scheme.hushed {K π : Type} : Scheme K π → Scheme K π
  | .segmented s => .segmented s.hushed
  | s => s

/-- Two schemes that are the same without flags are the same, or are segmented wheels. -/
theorem Scheme.hushed_cases {K π : Type} {s s' : Scheme K π} (h : UpTo Scheme.hushed s s') :
    s = s' ∨ ∃ u u' : Segmented K, s = .segmented u ∧ s' = .segmented u' ∧
      UpTo Segmented.hushed u u' := by
  cases s with
  | segmented u =>
    cases s' with
    | segmented u' => exact .inr ⟨u, u', rfl, rfl, Scheme.segmented.inj h⟩
    | _ => exact absurd h (by simp [UpTo, hushed])
  | _ =>
    cases s' with
    | segmented u' => exact absurd h (by simp [UpTo, hushed])
    | _ => exact .inl h

/-- A segmented wheel counts and closes its segments in spite of its flag ... -/
theorem Segmented.hushed_advance {K : Type} [Scalar K] (s : Segmented K) :
    s.advance.hushed = s.hushed.advance := by
  show hushed (if s.endsSegment (s.iteration + 1) then
    closeSegment { s with iteration := s.iteration + 1 }
    else { s with iteration := s.iteration + 1 }) = _
  by_cases h : s.endsSegment (s.iteration + 1) = true
  · rw [if_pos h]
    exact (if_pos h).symm
  · rw [if_neg h]
    exact (if_neg h).symm

/-- ... and takes reports in spite of it. -/
theorem Segmented.hushed_update {K : Type} [Scalar K] (s : Segmented K) (pair : Pair)
    (o : Outcome) : (s.update pair o).map hushed = s.hushed.update pair o := by
  show Except.map _ (s.wheel.coupling.requireLegal pair >>= _)
    = s.wheel.coupling.requireLegal pair >>= _
  cases s.wheel.coupling.requireLegal pair (K := K) with
  | error f => rfl
  | ok dr => rfl

theorem Segmented.matches_update {K : Type} [Scalar K] {s s' : Segmented K}
    (h : UpTo Segmented.hushed s s') (pair : Pair) (o : Outcome) :
    Matches (UpTo Segmented.hushed) (s.update pair o) (s'.update pair o) := by
  have hsame : (s.update pair o).map hushed = (s'.update pair o).map hushed := by
    rw [s.hushed_update, s'.hushed_update, show s.hushed = s'.hushed from h]
  exact (hsame ▸ Matches.refl _ : Matches Eq ((s.update pair o).map hushed) _).of_map

theorem Segmented.select_unswayed {K : Type} [Scalar K] :
    Agree (Setting.Aside (UpTo Segmented.hushed)) Eq
      (select : Act K (Segmented K) (Nat × Nat)) select := by
  unfold select
  refine Agree.own_aside.bind fun s s' hs => ?_
  have hadvance : UpTo Segmented.hushed s.advance s'.advance := by
    unfold UpTo
    rw [s.hushed_advance, s'.hushed_advance, hs]
  have hwheel : s.advance.wheel = s'.advance.wheel := congrArg (fun t => t.wheel) hadvance
  refine (Agree.sayIf_progress _ _ rfl rfl).bind_eq fun _ => ?_
  refine (Agree.become_aside hadvance).bind_eq fun _ => ?_
  rw [hwheel]
  exact .sample_aside _

theorem EpsilonGreedy.policy_unswayed {K : Type} [Scalar K] :
    (policy : Policy K (EpsilonGreedy K)).Unswayed where
  predict := fun _ => Agree.own_aside.bind_eq fun _ => .sample_aside _
  update := fun _ _ _ =>
    Agree.own_aside.bind_eq fun _ => (Agree.ofExcept _).bind fun _ _ h => .become_aside h.1

/-- An action of a policy that does not listen. -/
theorem ArmSelector.agree_consult_aside {K π α : Type} {act : Act K π α} (h : Act.Unswayed act) :
    Act.Unswayed (consult act : Act K (ArmSelector K π) α) := by
  refine h.on_aside (fun _ _ hs => congrArg policy hs) ?_
  rintro t _ s _ rfl rfl
  rfl

namespace Scheme

variable {K π X : Type} [Solution K X] {p : Policy K π}

/-- A state that is checked and then replaced. -/
theorem agree_exchange_aside {ρ : Type} {wrap : ρ → Scheme K π} {r r' : Except (Fault K) ρ}
    (h : Matches (fun t t' => UpTo Scheme.hushed (wrap t) (wrap t')) r r') :
    Agree (Setting.Aside (UpTo Scheme.hushed)) Eq
      (do Act.become (wrap (← Act.ofExcept r)) : Act K (Scheme K π) Unit)
      (do Act.become (wrap (← Act.ofExcept r'))) :=
  (Agree.ofMatches h).bind fun _ _ ht => .become_aside ht

variable [Scalar K]

theorem agree_select_aside [Elementary K] (hp : p.Unswayed) (current : X) :
    Agree (Setting.Aside (UpTo Scheme.hushed)) Eq
      (select p current : Act K (Scheme K π) Pair) (select p current) := by
  unfold select
  refine Agree.own_aside.bind fun s s' hs => ?_
  refine Agree.map ?_ fun _ _ h => congrArg Pair.ofNat h
  rcases hushed_cases hs with rfl | ⟨u, u', rfl, rfl, hu⟩
  · cases s with
    | uniform s => exact .draw_aside _
    | roulette s => exact .sample_aside _
    | segmented s =>
      exact Segmented.select_unswayed.on_aside (fun _ _ _ => rfl)
        fun _ _ _ _ _ ht => congrArg segmented ht
    | confidenceBound s => exact .pure rfl
    | bandit s =>
      exact (ArmSelector.agree_select_of Agree.own_aside .draw_aside
        (fun context => ArmSelector.agree_consult_aside (hp.predict context)) current).on_aside
          (fun _ _ _ => rfl) fun _ _ _ _ _ ht => congrArg bandit ht
  · exact Segmented.select_unswayed.on_aside (fun _ _ _ => hu)
      fun _ _ _ _ _ ht => congrArg segmented ht

theorem agree_update_aside (hp : p.Unswayed) (y : X) (pair : Pair) (o : Outcome) :
    Agree (Setting.Aside (UpTo Scheme.hushed)) Eq
      (update p y pair o : Act K (Scheme K π) Unit) (update p y pair o) := by
  unfold update
  refine Agree.own_aside.bind fun s s' hs => ?_
  rcases hushed_cases hs with rfl | ⟨u, u', rfl, rfl, hu⟩
  · cases s with
    | bandit s =>
      exact (ArmSelector.agree_update_of Agree.own_aside (fun arm reward context =>
        ArmSelector.agree_consult_aside (hp.update arm reward context)) y pair o).on_aside
          (fun _ _ _ => rfl) fun _ _ _ _ _ ht => congrArg bandit ht
    | _ s => exact agree_exchange_aside ((Matches.refl _).mono fun _ _ h => by rw [h]; rfl)
  · exact agree_exchange_aside ((Segmented.matches_update hu pair o).mono
      fun _ _ ht => congrArg segmented ht)

/-- **The schemes of the library** do not listen, and do not heed their flag. -/
theorem selector_unswayed [Elementary K] (hp : p.Unswayed) :
    (selector p : Selector K X (Scheme K π)).Unswayed Scheme.hushed where
  coupling := by
    intro t t' h
    rcases hushed_cases h with rfl | ⟨u, u', rfl, rfl, hu⟩
    · rfl
    · exact congrArg (fun u => u.wheel.coupling) hu
  select := fun _ current => agree_select_aside hp current
  update := agree_update_aside hp

end Scheme

/-! ## 4. Criteria and rules -/

/-- Annealing without its flag. -/
def SimulatedAnnealing.hushed {K : Type} (c : SimulatedAnnealing K) : SimulatedAnnealing K :=
  { c with verbose := false }

/-- A criterion without its flag, if it has one. -/
def Criterion.hushed {K : Type} : Criterion K → Criterion K
  | .simulatedAnnealing c => .simulatedAnnealing c.hushed
  | c => c

/-- Two criteria that are the same without flags are the same, or both anneal. -/
theorem Criterion.hushed_cases {K : Type} {c c' : Criterion K} (h : UpTo Criterion.hushed c c') :
    c = c' ∨ ∃ a a' : SimulatedAnnealing K, c = .simulatedAnnealing a ∧
      c' = .simulatedAnnealing a' ∧ UpTo SimulatedAnnealing.hushed a a' := by
  cases c with
  | simulatedAnnealing a =>
    cases c' with
    | simulatedAnnealing a' => exact .inr ⟨a, a', rfl, rfl, Criterion.simulatedAnnealing.inj h⟩
    | _ => exact absurd h (by simp [UpTo, hushed])
  | _ =>
    cases c' with
    | simulatedAnnealing a' => exact absurd h (by simp [UpTo, hushed])
    | _ => exact .inl h

section Criteria

variable {K : Type} [Scalar K] [Elementary K]

theorem SimulatedAnnealing.accept_unswayed (current candidate : K) :
    Agree (Setting.Aside (UpTo SimulatedAnnealing.hushed)) Eq (accept current candidate)
      (accept current candidate) := by
  unfold accept
  refine Agree.own_aside.bind fun c c' hc => ?_
  have htemperature : c.temperature = c'.temperature := congrArg (fun c => c.temperature) hc
  rw [htemperature]
  refine (Agree.draw_aside _).bind_eq fun u => ?_
  have hsettle : ∀ probability taken,
      UpTo SimulatedAnnealing.hushed (c.settle probability taken)
        (c'.settle probability taken) := by
    intro probability taken
    show c.hushed.settle probability taken = c'.hushed.settle probability taken
    rw [show c.hushed = c'.hushed from hc]
  refine (Agree.become_aside (hsettle _ _)).bind_eq fun _ => ?_
  exact (Agree.sayIf_progress _ _ rfl rfl).bind_eq fun _ => .pure rfl

/-- **The criteria of the library** do not listen, and do not heed their flag. -/
theorem Criterion.acceptor_unswayed {X : Type} [Solution K X] :
    (acceptor : Acceptor K X (Criterion K)).Unswayed Criterion.hushed := by
  intro best current candidate
  show Agree _ _ (accept _ _ _) (accept _ _ _)
  unfold accept
  refine Agree.own_aside.bind fun c c' hc => ?_
  have hsettle : ∀ {α : Type} (wrap : α → Criterion K) (decision : Bool × α),
      Agree (Setting.Aside (UpTo Criterion.hushed)) Eq (settle wrap decision)
        (settle wrap decision) := by
    intro α wrap decision
    have hbecome : Agree (Setting.Aside (UpTo Criterion.hushed)) Eq
        (Act.become (wrap decision.2) : Act K (Criterion K) Unit) (Act.become (wrap decision.2)) :=
      .become_aside rfl
    exact hbecome.bind_eq fun _ => .pure rfl
  have hanneal : ∀ {a a' : SimulatedAnnealing K}, UpTo SimulatedAnnealing.hushed a a' →
      ∀ x y : K, Agree (Setting.Aside (UpTo Criterion.hushed)) Eq
        ((SimulatedAnnealing.accept x y).on (fun _ => a) fun c _ => simulatedAnnealing c)
        ((SimulatedAnnealing.accept x y).on (fun _ => a') fun c _ => simulatedAnnealing c) :=
    fun h x y => (SimulatedAnnealing.accept_unswayed x y).on_aside (fun _ _ _ => h)
      fun _ _ _ _ _ ht => congrArg simulatedAnnealing ht
  rcases hushed_cases hc with rfl | ⟨a, a', rfl, rfl, ha⟩
  · cases c with
    | simulatedAnnealing c => exact hanneal rfl _ _
    | hillClimbing => exact .pure rfl
    | randomWalk => exact .pure rfl
    | randomAccept c => exact (Agree.draw_aside _).bind_eq fun _ => hsettle _ _
    | nonLinearGreatDeluge c =>
      exact (Agree.ofExcept _).bind fun _ _ h => h.1 ▸ hsettle _ _
    | _ c => exact hsettle _ _
  · exact hanneal ha _ _

end Criteria

/-- The rules of the library do not listen. -/
theorem Stopping.stopper_unswayed {K L X : Type} [Solution K X]
    (query : Int → K → L → Bool × L) :
    (stopper query : Stopper K X (Stopping L)).Unswayed := by
  intro now best current
  refine Agree.own_aside.bind_eq fun s => ?_
  exact (Agree.become_aside rfl).bind_eq fun _ => .pure rfl

/-! ## 5. New wheels and new annealing -/

namespace Act

variable {K σ τ α β : Type} {R : α → β → Prop} {c : Prop} [Decidable c] {f : Fault K}

theorem Matches.bind {γ δ : Type} {Q : γ → δ → Prop} {r : Except (Fault K) α}
    {r' : Except (Fault K) β} {next : α → Except (Fault K) γ} {next' : β → Except (Fault K) δ}
    (h : Matches R r r') (hnext : ∀ a b, R a b → Matches Q (next a) (next' b)) :
    Matches Q (r >>= next) (r' >>= next') := by
  cases h with
  | ok related => exact hnext _ _ related
  | error f => exact .error f

/-- A check that both sides make. -/
theorem Matches.guard {next : Unit → Except (Fault K) α} {next' : Unit → Except (Fault K) β}
    (h : Matches R (next ()) (next' ())) :
    Matches R (if c then (MonadExcept.throw f : Except (Fault K) Unit) >>= next else next ())
      (if c then (MonadExcept.throw f : Except (Fault K) Unit) >>= next' else next' ()) := by
  split
  · exact .error f
  · exact h

theorem Agree.guard {S : Setting K σ → Setting K τ → Prop} {next : Unit → Act K σ α}
    {next' : Unit → Act K τ β} (h : Agree S R (next ()) (next' ())) :
    Agree S R (if c then (MonadExcept.throw f : Act K σ Unit) >>= next else next ())
      (if c then (MonadExcept.throw f : Act K τ Unit) >>= next' else next' ()) := by
  split
  · exact (Agree.throw f).bind fun _ _ h => absurd h not_false
  · exact h

end Act

section Making

variable {K : Type} [Scalar K]

/-- The flag of a new wheel is nothing but its flag. -/
theorem Segmented.matches_make (scores : List K) (decay : K) (length : Int)
    (numDestroy numRepair : Nat) (coupling? : Option Coupling) (floor : K)
    (verbose verbose' : Bool) :
    Matches (UpTo Segmented.hushed)
      (make scores decay length numDestroy numRepair coupling? floor verbose)
      (make scores decay length numDestroy numRepair coupling? floor verbose') := by
  unfold make
  refine (Matches.refl _).bind ?_
  rintro wheel _ rfl
  exact .guard (.ok rfl)

theorem SimulatedAnnealing.matches_make (start finish step : K) (method : Schedule)
    (verbose verbose' : Bool) :
    Matches (UpTo SimulatedAnnealing.hushed) (make start finish step method verbose)
      (make start finish step method verbose') := by
  unfold make
  exact .guard (.guard (.guard (.ok rfl)))

/-- Fitting says its schedule or not, and comes to the same criterion. -/
theorem SimulatedAnnealing.agree_fit [Elementary K] {σ : Type} (initial worse probability : K)
    (iterations : Int) (method : Schedule) (verbose verbose' : Bool) :
    Agree (Setting.Aside Eq) (UpTo SimulatedAnnealing.hushed)
      (fit initial worse probability iterations method verbose : Act K σ _)
      (fit initial worse probability iterations method verbose') := by
  unfold fit
  refine .guard (.guard (.guard ?_))
  exact (Agree.sayIf_progress _ _ rfl rfl).bind_eq fun _ => .ofMatches (matches_make ..)

end Making

/-! ## 6. The search as a whole -/

/-- **Verbosity does not influence a search.**  A search and one that is more or less talkative,
with schemes and criteria that are the same but for their flags, come to the same result or fail
with the same fault.  They leave the same generator and, but for these flags, the same states; they
made the same calls; and what they said differs in progress alone.

All that the library has to offer is as this asks for.  New wheels and new annealing with different
flags are the same but for the flags, and a refusal is the same; so is annealing that is fitted to
the first objective, with the same generator and the same warnings after it. -/
theorem verbosity_does_not_influence {K X : Type} [Scalar K] [Elementary K] [Solution K X] :
    (∀ {ω σ α τ : Type} {e : Engine K X ω} {m : Methods K X σ α τ} {f : σ → σ} {g : α → α},
      e.Unswayed → m.selector.Unswayed f → m.acceptor.Unswayed g → m.stopper.Unswayed →
      ∀ (verbose : Bool) (clock : Nat → Int) (fuel : Nat) (initial? : Option X)
        (w w' : Setting K (Parts X ω σ α τ)), Setting.Aside (Parts.UpTo f g) w w' →
      (result (e.run m clock fuel initial?) w).1
        = (result ({ e with verbose }.run m clock fuel initial?) w').1 ∧
      Setting.Aside (Parts.UpTo f g) (result (e.run m clock fuel initial?) w).2
        (result ({ e with verbose }.run m clock fuel initial?) w').2) ∧
    (∀ {π : Type} {p : Policy K π}, p.Unswayed →
      (Scheme.selector p : Selector K X (Scheme K π)).Unswayed Scheme.hushed) ∧
    (EpsilonGreedy.policy : Policy K (EpsilonGreedy K)).Unswayed ∧
    (Criterion.acceptor : Acceptor K X (Criterion K)).Unswayed Criterion.hushed ∧
    (∀ {L : Type} (query : Int → K → L → Bool × L),
      (Stopping.stopper query : Stopper K X (Stopping L)).Unswayed) ∧
    (∀ (scores : List K) (decay : K) (length : Int) (numDestroy numRepair : Nat)
        (coupling? : Option Coupling) (floor : K) (verbose verbose' : Bool),
      Matches (UpTo Segmented.hushed)
        (Segmented.make scores decay length numDestroy numRepair coupling? floor verbose)
        (Segmented.make scores decay length numDestroy numRepair coupling? floor verbose')) ∧
    (∀ (start finish step : K) (method : Schedule) (verbose verbose' : Bool),
      Matches (UpTo SimulatedAnnealing.hushed)
        (SimulatedAnnealing.make start finish step method verbose)
        (SimulatedAnnealing.make start finish step method verbose')) ∧
    ∀ {ρ : Type} (initial worse probability : K) (iterations : Int) (method : Schedule)
        (verbose verbose' : Bool),
      Agree (Setting.Aside Eq) (UpTo SimulatedAnnealing.hushed)
        (SimulatedAnnealing.fit initial worse probability iterations method verbose : Act K ρ _)
        (SimulatedAnnealing.fit initial worse probability iterations method verbose') := by
  refine ⟨?_, Scheme.selector_unswayed, EpsilonGreedy.policy_unswayed,
    Criterion.acceptor_unswayed, Stopping.stopper_unswayed, Segmented.matches_make,
    SimulatedAnnealing.matches_make, SimulatedAnnealing.agree_fit⟩
  intro ω σ α τ e m f g he hs ha ht verbose clock fuel initial? w w' hw
  have halike := Engine.alike_aside he hs ha ht
  have hsay : ∀ line : Line K, line.channel = .progress →
      Agree (Setting.Aside (Parts.UpTo f g)) Eq
        (sayIf e.verbose line : Act K (Parts X ω σ α τ) Unit) (sayIf verbose line) :=
    fun line hline => .sayIf_progress _ _ hline hline
  obtain ⟨hmatch, hsettings⟩ := halike.run_talking hsay clock fuel initial? hw
  exact ⟨hmatch.eq, hsettings⟩

namespace Countdown

/-- A new segmented wheel for the pairs that may be combined. -/
noncomputable def segments (verbose : Bool) : Segmented ℝ where
  wheel := wheel
  length := 2
  verbose := verbose
  iteration := 0
  destroySums := [0, 0]
  repairSums := [0, 0]

theorem make_segments (verbose : Bool) :
    Segmented.make [3, 2, 1, 0] (1 : ℝ) 2 2 2 (some permitted) 1 verbose
      = .ok (segments verbose) := by
  rw [Segmented.make, make_wheel]
  rfl

/-- The search with a segmented wheel and annealing, which all talk or are all silent. -/
noncomputable def talking (verbose : Bool) : Setting ℝ
    (Parts (Level ℝ) Unit (Scheme ℝ (EpsilonGreedy ℝ)) (Criterion ℝ) Unit) :=
  setting (.segmented (segments verbose)) (.simulatedAnnealing { annealing with verbose })

theorem unswayed_engine : (engine : Engine ℝ (Level ℝ) Unit).Unswayed where
  destroy := by
    intro op hop x
    rw [item_of_mem_destroy hop]
    exact .pure rfl
  repair := by
    intro op hop x
    rw [item_of_mem_repair hop]
    exact .pure rfl
  onBest := fun _ hop => absurd hop (by simp [engine])

end Countdown

open Countdown in
/-- Counting down from two, talking and in silence, takes two iterations to the same result. -/
theorem verbosity_does_not_influence_countdown :
    (engine : Engine ℝ (Level ℝ) Unit).Unswayed ∧
    Setting.Aside (Parts.UpTo Scheme.hushed Criterion.hushed) (talking false) (talking true) ∧
    ∃ p v v',
      result (engine.run (methods (Scheme.selector EpsilonGreedy.policy) Criterion.acceptor 1)
        (fun n => (n : Int)) 3 (some ⟨2⟩)) (talking false) = (.ok (some p), v) ∧
      result ({ engine with verbose := true }.run
        (methods (Scheme.selector EpsilonGreedy.policy) Criterion.acceptor 1)
        (fun n => (n : Int)) 3 (some ⟨2⟩)) (talking true) = (.ok (some p), v') ∧
      p.best = ⟨0⟩ ∧ p.statistics.iterations = 2 ∧
      v.rng = v'.rng ∧ v.own.journal = v'.own.journal ∧
        v.own.scheme.hushed = v'.own.scheme.hushed ∧
        v.own.criterion.hushed = v'.own.criterion.hushed ∧
        warnings v.lines = warnings v'.lines := by
  have hstart : Setting.Aside (Parts.UpTo Scheme.hushed Criterion.hushed) (talking false)
      (talking true) := ⟨⟨⟨rfl, rfl, rfl, rfl, rfl⟩, rfl⟩, rfl⟩
  obtain ⟨p, v, hrun, hbest, -, hcount⟩ := run_from_two (K := ℝ) (w := talking false)
    supplies_scheme judges_criterion
    ⟨(Scheme.Reachable.segmented (X := Level ℝ) (make_segments false)).turning.1, rfl⟩
    fun _ => nofun
  obtain ⟨hruns, hscheme, hpolicy, hcriterion, -⟩ :=
    verbosity_does_not_influence (K := ℝ) (X := Level ℝ)
  obtain ⟨hsame, hsettings⟩ := hruns
    (m := methods (Scheme.selector EpsilonGreedy.policy) Criterion.acceptor 1) unswayed_engine
    (hscheme hpolicy) hcriterion (fun _ _ _ => .pure rfl) true (fun n => (n : Int)) 3 (some ⟨2⟩)
    _ _ hstart
  rcases hrun' : result ({ engine with verbose := true }.run
      (methods (Scheme.selector EpsilonGreedy.policy) Criterion.acceptor 1) (fun n => (n : Int)) 3
      (some ⟨2⟩)) (talking true) with ⟨r, v'⟩
  rw [hrun, hrun'] at hsame hsettings
  cases hsame
  exact ⟨unswayed_engine, hstart, p, v, v', hrun, hrun', hbest, hcount, hsettings.rng,
    hsettings.own.journal, hsettings.own.scheme, hsettings.own.criterion, hsettings.warnings⟩

end LargeNeighbourhood
