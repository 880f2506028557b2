/-
# What a run exchanges with its collaborators

The journal of a run holds the calls it made.  An `Exchange` is a call together with what came
back.  The action behind a call is `Engine.callee`: the collaborator's own action on its own
state, and nothing that the search adds to it.

A call ends in one of three ways.

* It is answered (`Exchanged`), and the search can use the answer.
* It is answered, and the search refuses the answer: a pair that is not legal, or no solution
  (`refusal`).
* The callee fails.

The last two break the run off (`Breaks`).  The search itself only says lines between two calls,
so a sequence of answered calls (`Performs`) is a chain in which each callee begins where the one
before it ended, but for some lines.
-/
import LargeNeighbourhood.Proofs.Act
import LargeNeighbourhood.Search.Run

namespace LargeNeighbourhood

open Act

/-! ## 1. Calls and answers -/

/-- What comes back from a call. -/
inductive Answer (X : Type) where
  | verdict (yes : Bool)
  | pair (pair : Pair)
  | solution (solution? : Option X)
  | noted

/-- A call and what came back. -/
structure Exchange (X : Type) where
  call : Call X
  answer : Answer X

/-- The callee of a call has no hand in some part of the whole. -/
def Call.Keeps {X ω σ α τ β : Type} (part : Parts X ω σ α τ → β) : Call X → Prop
  | .shouldStop .. => ∀ p stop, part { p with stop } = part p
  | .select .. | .update .. => ∀ p scheme, part { p with scheme } = part p
  | .accept .. => ∀ p criterion, part { p with criterion } = part p
  | .destroy .. | .repair .. | .onBest .. => ∀ p world, part { p with world } = part p

namespace Engine

variable {K X ω σ α τ : Type}

/-- The action behind a call. -/
def callee (e : Engine K X ω) (m : Methods K X σ α τ) (now : Int) :
    Call X → Act K (Parts X ω σ α τ) (Answer X)
  | .shouldStop best current =>
    .verdict <$> (m.stopper.ask now best current).on Parts.stop fun stop q => { q with stop }
  | .select best current =>
    .pair <$> (m.selector.select best current).on Parts.scheme fun scheme q => { q with scheme }
  | .destroy d current => do
    let op ← Act.ofExcept (e.destroy.entry d)
    .solution <$> apply op.item current
  | .repair r destroyed => do
    let op ← Act.ofExcept (e.repair.entry r)
    .solution <$> apply op.item destroyed
  | .accept best current candidate =>
    .verdict <$> (m.acceptor.accept best current candidate).on Parts.criterion
      fun criterion q => { q with criterion }
  | .onBest candidate =>
    match e.onBest? with
    | some op => .solution <$> apply op candidate
    | none => throw .emptyOnBest
  | .update candidate pair o =>
    (fun _ => .noted) <$> (m.selector.update candidate pair o).on Parts.scheme
      fun scheme q => { q with scheme }

/-- The fault with which the search refuses an answer. -/
def refusal (e : Engine K X ω) (coupling : Coupling) : Call X → Answer X → Option (Fault K)
  | .select _ _, .pair p =>
    if (coupling.legal? p).isNone then some (.illegalPair p.destroy p.repair) else none
  | .destroy d _, .solution none =>
    e.destroy.entries[d]?.map fun op => .destroyedNothing op.name
  | .repair r _, .solution none =>
    e.repair.entries[r]?.map fun op => .repairedNothing op.name
  | .onBest _, .solution none => some .onBestNothing
  | _, _ => none

/-- The setting with one more call in the journal. -/
def entering (w : Setting K (Parts X ω σ α τ)) (call : Call X) : Setting K (Parts X ω σ α τ) :=
  { w with own := { w.own with journal := w.own.journal.push call } }

@[simp] theorem result_enter (call : Call X) (w : Setting K (Parts X ω σ α τ)) :
    result (enter call) w = (.ok (), entering w call) := rfl

variable (e : Engine K X ω) (m : Methods K X σ α τ) (coupling : Coupling) (now : Int)

/-- The call was entered and answered, after the search may have said some lines. -/
def Exchanged (w : Setting K (Parts X ω σ α τ)) (x : Exchange X)
    (v : Setting K (Parts X ω σ α τ)) : Prop :=
  ∃ said, result (e.callee m now x.call) (entering (w.saying said) x.call) = (.ok x.answer, v)

/-- The call was entered and broke the run off: the callee failed, or its answer is refused. -/
def Breaks (w : Setting K (Parts X ω σ α τ)) (call : Call X) (f : Fault K)
    (v : Setting K (Parts X ω σ α τ)) : Prop :=
  (∃ said, result (e.callee m now call) (entering (w.saying said) call) = (.error f, v)) ∨
    ∃ answer, e.Exchanged m now w ⟨call, answer⟩ v ∧ e.refusal coupling call answer = some f

/-- The calls were made in this order and were all answered. -/
inductive Performs : Setting K (Parts X ω σ α τ) → List (Exchange X) →
    Setting K (Parts X ω σ α τ) → Prop
  | nil {w} : Performs w [] w
  | cons {w v u x xs} (head : e.Exchanged m now w x v) (tail : Performs v xs u) :
      Performs w (x :: xs) u

/-- Of the calls of a script some were answered as the script says, and the next one broke the run
off. -/
structure Interrupted (w : Setting K (Parts X ω σ α τ)) (script answered : List (Exchange X))
    (call : Call X) (f : Fault K) (v : Setting K (Parts X ω σ α τ)) : Prop where
  scripted : answered <+: script
  calls : answered.map Exchange.call ++ [call] <+: script.map Exchange.call
  broken : ∃ u, e.Performs m now w answered u ∧ e.Breaks m coupling now u call f v

variable {e m coupling now}
variable {w v u : Setting K (Parts X ω σ α τ)} {call : Call X} {f : Fault K} {x : Exchange X}
  {xs ys zs : List (Exchange X)} {said : Array (Line K)}

/-! ## 2. One call -/

/-- Lines said before a call are part of the call. -/
theorem Exchanged.of_saying (h : e.Exchanged m now (w.saying said) x v) :
    e.Exchanged m now w x v := by
  obtain ⟨more, h⟩ := h
  exact ⟨said ++ more, by rw [← Setting.saying_saying]; exact h⟩

theorem Breaks.of_saying (h : e.Breaks m coupling now (w.saying said) call f v) :
    e.Breaks m coupling now w call f v := by
  rcases h with ⟨more, h⟩ | ⟨answer, h, hr⟩
  · exact Or.inl ⟨said ++ more, by rw [← Setting.saying_saying]; exact h⟩
  · exact Or.inr ⟨answer, h.of_saying, hr⟩

/-- An action that the search runs right after entering a call answers the call. -/
theorem exchanged_of_ok {β : Type} {act : Act K (Parts X ω σ α τ) β} {g : β → Answer X} {b : β}
    (hc : e.callee m now call = g <$> act)
    (h : result act (entering w call) = (.ok b, v)) : e.Exchanged m now w ⟨call, g b⟩ v := by
  refine ⟨#[], ?_⟩
  rw [Setting.saying_empty, hc, result_map, h]
  rfl

/-- ... and breaks the run off where it fails. -/
theorem breaks_of_error {β : Type} {act : Act K (Parts X ω σ α τ) β} {g : β → Answer X}
    (hc : e.callee m now call = g <$> act)
    (h : result act (entering w call) = (.error f, v)) :
    e.Breaks m coupling now w call f v := by
  refine Or.inl ⟨#[], ?_⟩
  rw [Setting.saying_empty, hc, result_map, h]
  rfl

variable (e) (m) (now) in
/-- A call leaves alone what its callee has no hand in. -/
theorem callee_keeps {β : Type} {part : Parts X ω σ α τ → β} (h : call.Keeps part)
    (w : Setting K (Parts X ω σ α τ)) :
    part (result (e.callee m now call) w).2.own = part w.own := by
  cases call with
  | destroy d current =>
    simp only [callee, result_bind, result_ofExcept]
    cases e.destroy.entry d (K := K) with
    | error f => rfl
    | ok op =>
      simp only [apply, result_map, result_on]
      exact h _ _
  | repair r destroyed =>
    simp only [callee, result_bind, result_ofExcept]
    cases e.repair.entry r (K := K) with
    | error f => rfl
    | ok op =>
      simp only [apply, result_map, result_on]
      exact h _ _
  | onBest candidate =>
    simp only [callee]
    cases e.onBest? with
    | none => rfl
    | some op =>
      simp only [apply, result_map, result_on]
      exact h _ _
  | _ =>
    simp only [callee, result_map, result_on]
    exact h _ _

/-- No callee writes in the journal. -/
theorem keeps_journal (call : Call X) :
    call.Keeps (Parts.journal : Parts X ω σ α τ → Array (Call X)) := by
  cases call <;> exact fun _ _ => rfl

/-- Calls that do not go to the scheme leave it alone. -/
theorem keeps_scheme {call : Call X} (hs : ∀ b c, call ≠ .select b c)
    (hu : ∀ y p o, call ≠ .update y p o) :
    call.Keeps (Parts.scheme : Parts X ω σ α τ → σ) := by
  cases call with
  | select b c => exact absurd rfl (hs b c)
  | update y p o => exact absurd rfl (hu y p o)
  | _ => exact fun _ _ => rfl

/-- Only the question to the criterion has a hand in the criterion's state. -/
theorem keeps_criterion {call : Call X} (h : ∀ b c y, call ≠ .accept b c y) :
    call.Keeps (Parts.criterion : Parts X ω σ α τ → α) := by
  cases call with
  | accept b c y => exact absurd rfl (h b c y)
  | _ => exact fun _ _ => rfl

/-- Only the question whether to stop has a hand in the state of the rule. -/
theorem keeps_stop {call : Call X} (h : ∀ b c, call ≠ .shouldStop b c) :
    call.Keeps (Parts.stop : Parts X ω σ α τ → τ) := by
  cases call with
  | shouldStop b c => exact absurd rfl (h b c)
  | _ => exact fun _ _ => rfl

theorem Exchanged.keeps {β : Type} {part : Parts X ω σ α τ → β} (h : e.Exchanged m now w x v)
    (hk : x.call.Keeps part) : part v.own = part (entering w x.call).own := by
  obtain ⟨said, h⟩ := h
  have hpart := callee_keeps e m now hk (entering (w.saying said) x.call)
  rw [h] at hpart
  exact hpart

theorem Exchanged.journal (h : e.Exchanged m now w x v) :
    v.own.journal = w.own.journal.push x.call :=
  h.keeps (keeps_journal x.call)

theorem Breaks.journal (h : e.Breaks m coupling now w call f v) :
    v.own.journal = w.own.journal.push call := by
  rcases h with ⟨said, h⟩ | ⟨answer, h, -⟩
  · have hpart := callee_keeps e m now (keeps_journal call) (entering (w.saying said) call)
    rw [h] at hpart
    exact hpart
  · exact h.journal

/-! ## 3. Calls in a row -/

theorem Performs.journal (h : e.Performs m now w xs v) :
    v.own.journal.toList = w.own.journal.toList ++ xs.map Exchange.call := by
  induction h with
  | nil => simp
  | cons head tail ih => simp [ih, head.journal]

theorem Performs.of_saying (h : e.Performs m now (w.saying said) (x :: xs) v) :
    e.Performs m now w (x :: xs) v := by
  cases h with
  | cons head tail => exact .cons head.of_saying tail

theorem Performs.append (h : e.Performs m now w xs v) (h' : e.Performs m now v ys u) :
    e.Performs m now w (xs ++ ys) u := by
  induction h with
  | nil => exact h'
  | cons head tail ih => exact .cons head (ih h')

theorem Performs.split (h : e.Performs m now w (xs ++ ys) u) :
    ∃ v, e.Performs m now w xs v ∧ e.Performs m now v ys u := by
  induction xs generalizing w with
  | nil => exact ⟨w, .nil, h⟩
  | cons x xs ih =>
    cases h with
    | cons head tail =>
      obtain ⟨v, hxs, hys⟩ := ih tail
      exact ⟨v, .cons head hxs, hys⟩

/-- Calls leave alone what none of their callees has a hand in. -/
theorem Performs.keeps {β : Type} {part : Parts X ω σ α τ → β} (h : e.Performs m now w xs v)
    (hj : ∀ p journal, part { p with journal } = part p)
    (hk : ∀ x ∈ xs, x.call.Keeps part) : part v.own = part w.own := by
  induction h with
  | nil => rfl
  | cons head tail ih =>
    obtain ⟨hx, hxs⟩ := List.forall_mem_cons.1 hk
    exact (ih hxs).trans ((head.keeps hx).trans (hj _ _))

/-- A script is interrupted at its first call ... -/
theorem Interrupted.here (h : e.Breaks m coupling now w x.call f v) :
    e.Interrupted m coupling now w (x :: xs) [] x.call f v where
  scripted := List.nil_prefix
  calls := by simp
  broken := ⟨w, .nil, h⟩

/-- ... or after it. -/
theorem Interrupted.later (h : e.Exchanged m now w x v)
    (h' : e.Interrupted m coupling now v xs ys call f u) :
    e.Interrupted m coupling now w (x :: xs) (x :: ys) call f u := by
  obtain ⟨z, hp, hb⟩ := h'.broken
  exact ⟨List.cons_prefix_cons.mpr ⟨rfl, h'.scripted⟩,
    List.cons_prefix_cons.mpr ⟨rfl, h'.calls⟩, z, .cons h hp, hb⟩

/-- A longer script is interrupted where its beginning is ... -/
theorem Interrupted.append (h : e.Interrupted m coupling now w xs ys call f v)
    (zs : List (Exchange X)) : e.Interrupted m coupling now w (xs ++ zs) ys call f v where
  scripted := h.scripted.trans (List.prefix_append xs zs)
  calls := by
    rw [List.map_append]
    exact h.calls.trans (List.prefix_append _ _)
  broken := h.broken

/-- ... or past it. -/
theorem Interrupted.after (h : e.Performs m now w xs v)
    (h' : e.Interrupted m coupling now v zs ys call f u) :
    e.Interrupted m coupling now w (xs ++ zs) (xs ++ ys) call f u := by
  induction h with
  | nil => exact h'
  | cons head tail ih => exact .later head (ih h')

theorem Interrupted.of_saying (h : e.Interrupted m coupling now (w.saying said) xs ys call f v) :
    e.Interrupted m coupling now w xs ys call f v := by
  obtain ⟨u, hp, hb⟩ := h.broken
  cases hp with
  | nil => exact ⟨h.scripted, h.calls, w, .nil, hb.of_saying⟩
  | cons head tail => exact ⟨h.scripted, h.calls, u, .cons head.of_saying tail, hb⟩

theorem Interrupted.journal (h : e.Interrupted m coupling now w xs ys call f v) :
    v.own.journal.toList = w.own.journal.toList ++ ys.map Exchange.call ++ [call] := by
  obtain ⟨u, hp, hb⟩ := h.broken
  rw [hb.journal, Array.toList_push, hp.journal]

end Engine

end LargeNeighbourhood
