/-
# A run of the search

One iteration asks the selection scheme for a pair, applies the two operators to the current
solution, asks the acceptance criterion, and tells the scheme what became of the candidate.  A
candidate that is better than the best solution becomes best and current whatever the criterion
said; the callback may improve it first.

A run needs three collaborators, `Methods`, whose states are `Parts`.  Every call to one of them,
to an operator or to the callback is entered in a journal before it is made, so the journal of a
run that failed ends with the call that failed.

What a run knows besides is its `Progress`: the best and the current solution and the statistics.
An iteration is two steps, since the time it took is known only afterwards: `turn` makes the
calls, `conclude` writes the record.  `run` goes on until a rule stops it, on a given amount of
fuel and a given clock.
-/
import LargeNeighbourhood.Acceptance.Acceptor
import LargeNeighbourhood.Search.Engine
import LargeNeighbourhood.Selection.Selector
import LargeNeighbourhood.Statistics
import LargeNeighbourhood.Stopping.Stopper

namespace LargeNeighbourhood

/-! ## 1. Collaborators, calls and progress -/

/-- The collaborators of a run. -/
structure Methods (K X σ α τ : Type) where
  selector : Selector K X σ
  acceptor : Acceptor K X α
  stopper : Stopper K X τ

/-- A call that leaves the search. -/
inductive Call (X : Type) where
  | shouldStop (best current : X)
  | select (best current : X)
  | destroy (index : Nat) (current : X)
  | repair (index : Nat) (destroyed : X)
  | accept (best current candidate : X)
  | onBest (candidate : X)
  | update (candidate : X) (pair : Pair) (outcome : Outcome)
  deriving DecidableEq, Repr

/-- The states of the collaborators and of the operators' world, and the calls so far. -/
structure Parts (X ω σ α τ : Type) where
  world : ω
  scheme : σ
  criterion : α
  stop : τ
  journal : Array (Call X) := #[]

/-- Where a run stands between two iterations. -/
structure Progress (K X : Type) where
  best : X
  current : X
  statistics : Statistics K

/-- What one iteration did. -/
structure Turn (X : Type) where
  destroy : String
  repair : String
  outcome : Outcome
  best : X
  current : X

namespace Engine

variable {K X ω σ α τ : Type}

/-! ## 2. Calls -/

section Calls

/-- Enters a call in the journal. -/
def enter (call : Call X) : Act K (Parts X ω σ α τ) Unit :=
  Act.change fun p => { p with journal := p.journal.push call }

/-- Applies an operator in the operators' world. -/
def apply (op : Operator K X ω) (x : X) : Act K (Parts X ω σ α τ) (Option X) :=
  (op x).on Parts.world fun world p => { p with world }

/-- Asks whether to stop. -/
def shouldStop (m : Methods K X σ α τ) (now : Int) (p : Progress K X) :
    Act K (Parts X ω σ α τ) Bool := do
  enter (.shouldStop p.best p.current)
  (m.stopper.ask now p.best p.current).on Parts.stop fun stop q => { q with stop }

/-- Asks for a pair, which has to be legal. -/
def select (m : Methods K X σ α τ) (coupling : Coupling) (p : Progress K X) :
    Act K (Parts X ω σ α τ) (Nat × Nat) := do
  enter (.select p.best p.current)
  let pair ← (m.selector.select p.best p.current).on Parts.scheme
    fun scheme q => { q with scheme }
  match coupling.legal? pair with
  | some dr => return dr
  | none => throw (.illegalPair pair.destroy pair.repair)

/-- Applies the destroy operator at an index. -/
def destroyAt (e : Engine K X ω) (d : Nat) (current : X) :
    Act K (Parts X ω σ α τ) (String × X) := do
  let op ← Act.ofExcept (e.destroy.entry d)
  enter (.destroy d current)
  match ← apply op.item current with
  | some destroyed => return (op.name, destroyed)
  | none => throw (.destroyedNothing op.name)

/-- Applies the repair operator at an index. -/
def repairAt (e : Engine K X ω) (r : Nat) (destroyed : X) :
    Act K (Parts X ω σ α τ) (String × X) := do
  let op ← Act.ofExcept (e.repair.entry r)
  enter (.repair r destroyed)
  match ← apply op.item destroyed with
  | some candidate => return (op.name, candidate)
  | none => throw (.repairedNothing op.name)

/-- Asks whether the candidate is taken. -/
def accepts (m : Methods K X σ α τ) (p : Progress K X) (candidate : X) :
    Act K (Parts X ω σ α τ) Bool := do
  enter (.accept p.best p.current candidate)
  (m.acceptor.accept p.best p.current candidate).on Parts.criterion
    fun criterion q => { q with criterion }

/-- What the callback makes of a new best solution; without a callback, the same. -/
def polish (e : Engine K X ω) (candidate : X) : Act K (Parts X ω σ α τ) X := do
  match e.onBest? with
  | none => return candidate
  | some op =>
    enter (.onBest candidate)
    match ← apply op candidate with
    | some polished => return polished
    | none => throw .onBestNothing

/-- Tells the scheme what became of the candidate. -/
def report (m : Methods K X σ α τ) (candidate : X) (pair : Pair) (o : Outcome) :
    Act K (Parts X ω σ α τ) Unit := do
  enter (.update candidate pair o)
  (m.selector.update candidate pair o).on Parts.scheme fun scheme q => { q with scheme }

end Calls

/-! ## 3. One iteration -/

variable [Solution K X] [LT K] [DecidableLT K]

/-- The outcome of a candidate that is not a new best: decided by the criterion, and by whether
it is better than the current solution. -/
def classify (accepted : Bool) (current candidate : X) : Outcome :=
  if accepted then if objective candidate < objective current then .better else .accept
  else .reject

/-- Decides about a candidate: the outcome, and the best and the current solution after it. -/
def evaluate (e : Engine K X ω) (m : Methods K X σ α τ) (p : Progress K X) (candidate : X) :
    Act K (Parts X ω σ α τ) (Outcome × X × X) := do
  let accepted ← accepts m p candidate
  if objective candidate < objective p.best then
    Act.sayIf e.verbose (.newBest (objective candidate))
    let polished ← e.polish candidate
    return (.best, polished, polished)
  else
    return (classify accepted p.current candidate, p.best,
      if accepted then candidate else p.current)

/-- The calls of one iteration, from the choice of a pair to the report. -/
def turn (e : Engine K X ω) (m : Methods K X σ α τ) (coupling : Coupling) (p : Progress K X) :
    Act K (Parts X ω σ α τ) (Turn X) := do
  let (d, r) ← select m coupling p
  let (destroy, destroyed) ← e.destroyAt d p.current
  let (repair, candidate) ← e.repairAt r destroyed
  let (outcome, best, current) ← e.evaluate m p candidate
  report m candidate (Pair.ofNat (d, r)) outcome
  return { destroy, repair, outcome, best, current }

omit [LT K] [DecidableLT K] in
/-- The record of an iteration that ended now. -/
def recorded (now : Int) (p : Progress K X) (t : Turn X) : Progress K X where
  best := t.best
  current := t.current
  statistics :=
    (((p.statistics.recordObjective (objective t.current)).recordDestroy t.destroy
      t.outcome).recordRepair t.repair t.outcome).recordTime now

omit [LT K] [DecidableLT K] in
/-- Writes the record of an iteration that ended now. -/
def conclude (e : Engine K X ω) (now : Int) (p : Progress K X) (t : Turn X) :
    Act K (Parts X ω σ α τ) (Progress K X) := do
  let next := recorded now p t
  Act.sayIf e.verbose (.iterated next.statistics.iterations t.destroy t.repair t.outcome
    (objective next.current) (objective next.best))
  return next

/-! ## 4. Runs -/

omit [LT K] [DecidableLT K] in
/-- A run begins now at an initial solution. -/
def start (e : Engine K X ω) (now : Int) (initial : X) :
    Act K (Parts X ω σ α τ) (Progress K X) := do
  Act.sayIf e.verbose (.started (objective initial))
  let statistics : Statistics K := {}
  return {
    best := initial
    current := initial
    statistics := (statistics.recordObjective (objective initial)).recordTime now }

omit [LT K] [DecidableLT K] in
/-- A run is over. -/
def finish (e : Engine K X ω) (p : Progress K X) : Act K (Parts X ω σ α τ) Unit :=
  Act.sayIf e.verbose
    (.finished p.statistics.iterations p.statistics.elapsed (objective p.best))

/-- Iterations until the rule stops them, as far as the fuel goes.  The clock is read twice in an
iteration: for the question whether to stop, and at the end. -/
def loop (e : Engine K X ω) (m : Methods K X σ α τ) (coupling : Coupling) (clock : Nat → Int) :
    Nat → Progress K X → Act K (Parts X ω σ α τ) (Option (Progress K X))
  | 0, _ => return none
  | fuel + 1, p => do
    let done := p.statistics.iterations
    if ← shouldStop m (clock (2 * done + 1)) p then
      e.finish p
      return some p
    else
      let t ← e.turn m coupling p
      let next ← e.conclude (clock (2 * done + 2)) p t
      loop e m coupling clock fuel next

/-- A run from an initial solution: its progress when the rule stopped it, or nothing if the fuel
did not last. -/
def run (e : Engine K X ω) (m : Methods K X σ α τ) (clock : Nat → Int) (fuel : Nat)
    (initial? : Option X) : Act K (Parts X ω σ α τ) (Option (Progress K X)) := do
  let (initial, coupling) ← Act.ofExcept
    (e.prepare (m.selector.coupling (← Act.own).scheme) initial?)
  let p ← e.start (clock 0) initial
  e.loop m coupling clock fuel p

end Engine

end LargeNeighbourhood
