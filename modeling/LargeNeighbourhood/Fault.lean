/-
# Why an operation fails

One constructor for every cause, carrying what its message names.  A fault belongs to one of
five families: an argument that makes no sense, an index out of range, a broken promise of the
program itself, a condition met while running, and a negative size.  The wording is apart, in
`Fault.Message`.
-/

namespace LargeNeighbourhood

/-- The family of a fault. -/
inductive FaultKind where
  | invalidArgument
  | outOfRange
  | logic
  | runtime
  | length
  deriving DecidableEq, Repr

/-- The cause of a failure.  The number type occurs only where a message prints a number. -/
inductive Fault (K : Type) where
  /-- Raised by an operator of the user, with the user's own words. -/
  | raised (kind : FaultKind) (text : String)
  -- random draws
  | negativeSize
  | noWeights
  | negativeWeight
  | zeroTotalWeight
  -- coupling matrices
  | raggedRows
  | couplingIndex (destroy repair : Nat)
  | missingOperators
  | uncoupledDestroy (destroy : Nat)
  | couplingShape (numDestroy numRepair expectedDestroy expectedRepair : Nat)
  -- registries and registrations
  | emptyOperator (role name : String)
  | operatorIndex (role : String) (index : Nat)
  | emptyOnBest
  | unknownDestroy (repair destroy : String)
  | uncoupledName (destroy : String)
  -- statistics
  | noStatistics (role name : String)
  -- selection schemes
  | tooFewScores (found : Nat)
  | negativeScore
  | forbiddenPair (destroy repair : Int)
  | decayOutside
  | weightFloor
  | segmentLength
  | strandedDestroy (destroy : Nat)
  | alphaOutside (alpha : K)
  | missingPolicy
  | epsilonOutside
  | predictBeforeReset
  | unknownArm (arm : Nat)
  | armOutside (arm arms : Nat)
  | noContext
  -- acceptance criteria
  | unknownMethodName (name : String)
  | unknownMethod
  | negativeLookback
  | temperaturesNotPositive
  | temperaturesReversed
  | thresholdsNegative
  | thresholdsReversed
  | exponentialStep
  | probabilitiesReversed
  | negativeStep
  | worseOutside
  | acceptProbabilityOutside
  | noIterations
  | delugeParameters
  | delugeRates
  | zeroInitialValue
  | etaOutside
  | emptyWindow
  -- stopping criteria
  | negativeIterations
  | negativeRuntime
  | emptyComposite
  | missingChild
  | missingShared
  -- the search itself
  | missingInitial
  | schemeSize (schemeDestroy schemeRepair numDestroy numRepair : Nat)
  | schemeForbidden (destroy repair : String)
  | illegalPair (destroy repair : Int)
  | destroyedNothing (name : String)
  | repairedNothing (name : String)
  | onBestNothing
  deriving DecidableEq, Repr

/-- The family a cause belongs to. -/
def Fault.kind {K : Type} : Fault K → FaultKind
  | .raised kind _ => kind
  | .negativeSize => .length
  | .couplingIndex .. | .operatorIndex .. | .noStatistics .. | .unknownArm .. => .outOfRange
  | .noWeights | .negativeWeight | .zeroTotalWeight | .forbiddenPair .. | .strandedDestroy ..
  | .predictBeforeReset | .armOutside .. | .illegalPair .. | .destroyedNothing ..
  | .repairedNothing .. | .onBestNothing => .runtime
  | _ => .invalidArgument

end LargeNeighbourhood
