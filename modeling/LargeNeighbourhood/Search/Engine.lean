/-
# The operators of a search and how they may be combined

An engine holds the destroy operators, the repair operators and the callback for new best
solutions.  A repair operator may name the destroy operators that it may follow; one that names
none may follow all.  A later registration of the same operator replaces these names too.  They are
looked up only when the coupling is computed, so they may name an operator before it is registered.

`Engine.coupling` begins with all pairs and clears, one repair operator after the other, the marks
that the restrictions rule out.  `Engine.prepare` collects everything that is checked before a run.
It reads the engine, the initial solution and the coupling of the selection scheme, and changes
nothing.
-/
import LargeNeighbourhood.Coupling
import LargeNeighbourhood.Registry
import LargeNeighbourhood.Search.Restrictions

namespace LargeNeighbourhood

/-- An operator: it makes a solution from a solution, or none.  Operators share a world `ω`, in
which they may keep what they please. -/
abbrev Operator (K X ω : Type) := X → Act K ω (Option X)

/-- Registered operators. -/
structure Engine (K X ω : Type) where
  verbose : Bool := false
  destroy : Registry (Operator K X ω) := { role := "destroy" }
  repair : Registry (Operator K X ω) := { role := "repair" }
  onlyAfter : Restrictions := []
  onBest? : Option (Operator K X ω) := none

namespace Engine

variable {K X ω : Type}

/-- An engine without operators, beside the generator of its seed. -/
def seeded (seed : UInt64) (verbose : Bool) : Setting K (Engine K X ω) :=
  ⟨{ verbose }, Generator.ofSeed seed, #[]⟩

/-! ## 1. Registration -/

/-- Registers a destroy operator. -/
def addDestroy (name : String) (op? : Option (Operator K X ω)) : Act K (Engine K X ω) Bool :=
  (Registry.add name op?).on Engine.destroy fun destroy e => { e with destroy }

/-- Registers a repair operator that may only follow the named destroy operators. -/
def addRepair (name : String) (op? : Option (Operator K X ω)) (onlyAfter : List String) :
    Act K (Engine K X ω) Bool := do
  let known ← (Registry.add name op?).on Engine.repair fun repair e => { e with repair }
  Act.change fun e => { e with onlyAfter := e.onlyAfter.record name onlyAfter }
  return known

/-- Sets the callback for new best solutions. -/
def setOnBest (op? : Option (Operator K X ω)) : Act K (Engine K X ω) Unit := do
  match op? with
  | none => throw .emptyOnBest
  | some op =>
    let e ← Act.own
    Act.sayIf e.onBest?.isSome .onBestReplaced
    Act.become { e with onBest? := some op }

/-! ## 2. The coupling of the registered operators -/

/-- The first name of a set that is no destroy operator. -/
def unknownAmong? (e : Engine K X ω) (names : NameSet) : Option String :=
  names.find? fun n => (e.destroy.indexOf? n).isNone

/-- Clears the marks of a repair operator with the destroy operators that are not in a set. -/
def clearColumn (e : Engine K X ω) (names : NameSet) (r : Nat) (c : Coupling) :
    Except (Fault K) Coupling :=
  e.destroy.names.zipIdx.foldlM
    (fun c (destroy, d) => if names.contains destroy then return c else c.set d r false) c

/-- Restricts a repair operator, which has a name and an index, as its registration asks. -/
def restrict (e : Engine K X ω) (c : Coupling) : String × Nat → Except (Fault K) Coupling
  | (repair, r) =>
    match e.onlyAfter.find? repair with
    | none => return c
    | some names =>
      match e.unknownAmong? names with
      | some destroy => throw (.unknownDestroy repair destroy)
      | none => e.clearColumn names r c

/-- Checks that every destroy operator has a partner left. -/
def checkPartners (e : Engine K X ω) (c : Coupling) : Except (Fault K) Unit :=
  e.destroy.names.zipIdx.forM fun (destroy, d) => do
    if (← c.coupledRepair d).isEmpty then throw (.uncoupledName destroy)

/-- The coupling that the registrations imply. -/
def coupling (e : Engine K X ω) : Except (Fault K) Coupling := do
  let c ← e.repair.names.zipIdx.foldlM e.restrict (Coupling.all e.destroy.size e.repair.size)
  e.checkPartners c
  return c

/-! ## 3. Checks before a run -/

/-- Checks that a pair which a scheme allows is not forbidden. -/
def checkPair (e : Engine K X ω) (scheme coupling : Coupling) (d r : Nat) :
    Except (Fault K) Unit := do
  if ← scheme.mark d r then
    unless ← coupling.mark d r do
      let destroy ← e.destroy.entry d
      let repair ← e.repair.entry r
      throw (.schemeForbidden destroy.name repair.name)

/-- Checks that a scheme fits the registered operators, and its pairs, row by row, the coupling. -/
def checkScheme (e : Engine K X ω) (scheme coupling : Coupling) : Except (Fault K) Unit := do
  if scheme.numDestroy ≠ e.destroy.size ∨ scheme.numRepair ≠ e.repair.size then
    throw (.schemeSize scheme.numDestroy scheme.numRepair e.destroy.size e.repair.size)
  (List.range coupling.numDestroy).forM fun d =>
    (List.range coupling.numRepair).forM fun r => e.checkPair scheme coupling d r

/-- Checks that a run can begin: the initial solution, and the coupling of the run. -/
def prepare (e : Engine K X ω) (scheme : Coupling) (initial? : Option X) :
    Except (Fault K) (X × Coupling) := do
  if e.destroy.entries.isEmpty || e.repair.entries.isEmpty then throw .missingOperators
  match initial? with
  | none => throw .missingInitial
  | some initial =>
    let coupling ← e.coupling
    e.checkScheme scheme coupling
    return (initial, coupling)

end Engine

end LargeNeighbourhood
