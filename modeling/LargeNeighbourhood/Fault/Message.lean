/-
# The words for a fault

One text for each cause; a negative size has none of its own.  A message is such a text up to its
first NUL character: a name that holds one cuts the message off there.
-/
import LargeNeighbourhood.Decimal.Format
import LargeNeighbourhood.Fault

namespace LargeNeighbourhood

/-- The whole text of a fault. -/
def Fault.text : Fault Float → String
  | .raised _ text => text
  | .negativeSize => ""
  | .noWeights => "weighted_choice: empty weight vector"
  | .negativeWeight => "weighted_choice: negative weight"
  | .zeroTotalWeight => "weighted_choice: weights sum to zero"
  | .raggedRows => "Coupling matrix rows must have equal length"
  | .couplingIndex d r => s!"Coupling index ({d}, {r}) out of range"
  | .missingOperators => "Missing destroy or repair operators."
  | .uncoupledDestroy d => s!"Destroy op. {d} has no coupled repair operators."
  | .couplingShape d r ed er => s!"Coupling matrix of shape ({d}, {r}), expected ({ed}, {er})."
  | .emptyOperator role name => s!"Cannot add empty {role} operator {name}"
  | .operatorIndex role i => s!"{role} operator index {i} out of range"
  | .emptyOnBest => "Cannot set an empty on_best callback"
  | .unknownDestroy r d => s!"Repair operator {r} is coupled with unknown destroy operator {d}"
  | .uncoupledName d => s!"{d} has no coupled repair operators."
  | .noStatistics role name => s!"No statistics collected for {role} operator {name}"
  | .tooFewScores found => s!"Expected four scores, found {found}"
  | .negativeScore => "Negative scores are not understood."
  | .forbiddenPair d r => s!"Operator pair ({d}, {r}) is not a legal destroy/repair combination"
  | .decayOutside => "decay outside [0, 1] not understood."
  | .weightFloor => "min_weight must be strictly positive."
  | .segmentLength => "seg_length < 1 not understood."
  | .strandedDestroy d => s!"Destroy op. {d} has no coupled repair operators."
  | .alphaOutside alpha =>
    let text := Decimal.fixed 6 alpha
    s!"Alpha {text} outside [0, 1] not understood."
  | .missingPolicy => "MABSelector requires a bandit policy."
  | .epsilonOutside => "epsilon outside [0, 1] not understood."
  | .predictBeforeReset => "EpsilonGreedy: predict called before reset"
  | .unknownArm arm => s!"EpsilonGreedy: unknown arm {arm}"
  | .armOutside arm arms => s!"Bandit policy returned arm {arm}, but only {arms} arms exist"
  | .noContext =>
    "State does not provide get_context(); contextual selection requires a ContextualState"
  | .unknownMethodName name => "Method `" ++ name ++ "' not understood."
  | .unknownMethod => "Unknown update method"
  | .negativeLookback => "lookback_period must be a non-negative integer."
  | .temperaturesNotPositive => "Temperatures must be strictly positive."
  | .temperaturesReversed => "start_temperature < end_temperature not understood."
  | .thresholdsNegative => "Thresholds must be positive."
  | .thresholdsReversed => "start_threshold < end_threshold not understood."
  | .exponentialStep => "Exponential updating requires step in (0, 1]."
  | .probabilitiesReversed => "Must have 0 <= end_prob <= start_prob <= 1"
  | .negativeStep => "Step cannot be negative."
  | .worseOutside => "worse outside [0, 1] not understood."
  | .acceptProbabilityOutside => "accept_prob outside (0, 1) not understood."
  | .noIterations => "Non-positive number of iterations not understood."
  | .delugeParameters => "alpha must be > 1 and beta must be in (0, 1)."
  | .delugeRates => "gamma and delta must be positive."
  | .zeroInitialValue => "Initial solution cannot have zero value."
  | .etaOutside => "eta must be in [0, 1]."
  | .emptyWindow => "gamma must be positive."
  | .negativeIterations => "max_iterations < 0 not understood."
  | .negativeRuntime => "max_runtime < 0 not understood."
  | .emptyComposite => "Composite stopping criterion needs at least one child."
  | .missingChild => "Composite stopping criterion got a null child."
  | .missingShared => "Shared stopping criterion may not be null."
  | .missingInitial => "Initial solution is null."
  | .schemeSize sd sr d r =>
    s!"Selection scheme expects {sd} destroy and {sr} repair operators, " ++
      s!"but {d} and {r} are registered."
  | .schemeForbidden d r =>
    s!"Selection scheme allows {d} with {r}, which the repair operator's only_after forbids."
  | .illegalPair d r => s!"Selection scheme returned illegal operator pair ({d}, {r})"
  | .destroyedNothing name => s!"Destroy operator {name} returned no state"
  | .repairedNothing name => s!"Repair operator {name} returned no state"
  | .onBestNothing => "on_best callback returned no state"

/-- The message of a fault, exactly as it is shown. -/
def Fault.message (fault : Fault Float) : String :=
  String.ofList (fault.text.toList.takeWhile fun c => c ≠ '\x00')

end LargeNeighbourhood
