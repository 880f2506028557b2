/-
# The text of a message

Every line ends in a line break.  Numbers have the general form of `Decimal.general`.  How the
time of a run is written is left to the caller: a clock is no part of a run that can be repeated.
-/
import LargeNeighbourhood.Console
import LargeNeighbourhood.Decimal.Format

namespace LargeNeighbourhood

namespace Line

/-- The text of a line; `time` writes nanoseconds as seconds. -/
def text (time : Int → String) : Line Float → String
  | operatorReplaced role name =>
    s!"[ALNS] warning: {role} operator {name} already exists and is overwritten\n"
  | onBestReplaced => "[ALNS] warning: on_best callback already set and is overwritten\n"
  | segmentEnd iteration => s!"[SegmentedRouletteWheel] end of segment, iter={iteration}\n"
  | annealed temperature rate current candidate probability accepted =>
    "[SimulatedAnnealing] temp=" ++ Decimal.general temperature
      ++ " acc-rate=" ++ Decimal.general rate
      ++ " | score: " ++ Decimal.general current ++ "->" ++ Decimal.general candidate
      ++ " prob=" ++ Decimal.general probability
      ++ (if accepted then " accepted" else " rejected") ++ "\n"
  | annealingFitted start step method =>
    "[SimulatedAnnealing] autofit start_temp=" ++ Decimal.general start
      ++ " step=" ++ Decimal.general step ++ " method=" ++ method.name ++ "\n"
  | started objective => "[ALNS] initial objective=" ++ Decimal.general objective ++ "\n"
  | newBest objective => "[ALNS] new best with objective " ++ Decimal.general objective ++ "\n"
  | iterated iteration destroy repair outcome current best =>
    s!"[ALNS] iter={iteration} destroy={destroy} repair={repair} outcome="
      ++ outcome.name ++ " current=" ++ Decimal.general current
      ++ " best=" ++ Decimal.general best ++ "\n"
  | finished iterations elapsed best =>
    s!"[ALNS] finished {iterations} iterations in " ++ time elapsed
      ++ "s, best objective=" ++ Decimal.general best ++ "\n"

end Line

/-- The text of the lines of one channel. -/
def transcript (time : Int → String) (channel : Channel) (lines : Array (Line Float)) : String :=
  String.join ((lines.toList.filter fun l => l.channel = channel).map (Line.text time))

end LargeNeighbourhood
