/-
# Actions

A component of a search (a selection scheme, a criterion, an operator) has a state of its own,
draws from the generator it is handed, says lines, and may fail.  `Act K σ α` is such an action
for a component with state `σ`.  What an action did before it failed stays done: the state, the
generator and the log are there after a failure as well.

`Act.on` runs an action of a part as an action of the whole.
-/
import LargeNeighbourhood.Console
import LargeNeighbourhood.Random.Draw

namespace LargeNeighbourhood

/-- What an action works on: a state, a generator, and the lines said so far. -/
structure Setting (K σ : Type) where
  own : σ
  rng : Generator
  lines : Array (Line K) := #[]

/-- An action of a component with state `σ`. -/
abbrev Act (K σ α : Type) := ExceptT (Fault K) (StateM (Setting K σ)) α

namespace Act

variable {K σ τ α : Type}

/-- The component's state. -/
def own : Act K σ σ := do return (← get).own

/-- Replaces the component's state. -/
def become (s : σ) : Act K σ Unit := modify fun w => { w with own := s }

/-- Changes the component's state. -/
def change (f : σ → σ) : Act K σ Unit := modify fun w => { w with own := f w.own }

/-- Says a line. -/
def say (line : Line K) : Act K σ Unit := modify fun w => { w with lines := w.lines.push line }

/-- Says a line if the component is talkative. -/
def sayIf (verbose : Bool) (line : Line K) : Act K σ Unit := if verbose then say line else return ()

/-- Goes on with a value, or fails. -/
def ofExcept : Except (Fault K) α → Act K σ α
  | .ok a => return a
  | .error f => throw f

/-- Draws. -/
def draw (d : Draw α) : Act K σ α := fun w =>
  let (a, rng) := d w.rng
  (.ok a, { w with rng })

/-- Draws, and fails where the sampling does. -/
def sample (d : Sampling K α) : Act K σ α := fun w =>
  let (r, rng) := d w.rng
  (r, { w with rng })

/-- An action of a part, as an action of the whole. -/
def on (part : τ → σ) (restore : σ → τ → τ) (act : Act K σ α) : Act K τ α := fun w =>
  let ⟨own, rng, lines⟩ := w
  let (r, v) := act ⟨part own, rng, lines⟩
  (r, ⟨restore v.own own, v.rng, v.lines⟩)

end Act

end LargeNeighbourhood
