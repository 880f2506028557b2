/-
# Stopping rules

A rule combines limits by `or` and `and`.  Every child of a rule is asked each time, from left to
right, whatever the others answer: limits count questions, so a child that is skipped would fall
behind.

A rule may also stand in several places at once.  Such a shared rule is kept in a row of its own,
where it can refer to the shared rules before it, and `shared i` asks it in place: once for every
place that is reached.  That references point backwards only is what makes `askShared` end.
-/
import LargeNeighbourhood.Stopping.Stopper

namespace LargeNeighbourhood

/-- A rule over limits of type `L`. -/
inductive Rule (L : Type) where
  | limit (limit : L)
  | anyOf (rules : List (Rule L))
  | allOf (rules : List (Rule L))
  | shared (index : Nat)

namespace Rule

/-! ## 1. Putting rules together -/

section Make

variable {K L : Type}

/-- The children of a composite rule: at least one, and none missing. -/
def children (rules : List (Option (Rule L))) : Except (Fault K) (List (Rule L)) :=
  if rules.isEmpty then .error .emptyComposite
  else match rules.mapM id with
    | some rules => .ok rules
    | none => .error .missingChild

/-- Stops when one of the children does. -/
def makeAny (rules : List (Option (Rule L))) : Except (Fault K) (Rule L) :=
  anyOf <$> children rules

/-- Stops when all children do. -/
def makeAll (rules : List (Option (Rule L))) : Except (Fault K) (Rule L) :=
  allOf <$> children rules

/-- A place for a shared rule, which must exist. -/
def share (index? : Option Nat) : Except (Fault K) (Rule L) :=
  match index? with
  | some i => .ok (shared i)
  | none => .error .missingShared

/-- A place for each of some shared rules. -/
def shareEach (indices : List (Option Nat)) : Except (Fault K) (List (Option (Rule L))) :=
  indices.mapM fun i => some <$> share i

end Make

/-! ## 2. Asking -/

section Ask

variable {L S : Type}

mutual

/-- One question to a rule.  `query` asks a limit, and `byIndex` a shared rule, whose state is
not part of the rule. -/
def ask (query : L → Bool × L) (byIndex : Nat → StateM S Bool) :
    Rule L → StateM S (Bool × Rule L)
  | limit l => do
    let (stop, l) := query l
    return (stop, limit l)
  | anyOf rules => do
    let (answers, rules) ← askEach query byIndex rules
    return (answers.any id, anyOf rules)
  | allOf rules => do
    let (answers, rules) ← askEach query byIndex rules
    return (answers.all id, allOf rules)
  | shared i => do
    let stop ← byIndex i
    return (stop, shared i)

/-- One question to each of some rules, from left to right. -/
def askEach (query : L → Bool × L) (byIndex : Nat → StateM S Bool) :
    List (Rule L) → StateM S (List Bool × List (Rule L))
  | [] => return ([], [])
  | rule :: rules => do
    let (stop, rule) ← ask query byIndex rule
    let (answers, rules) ← askEach query byIndex rules
    return (stop :: answers, rule :: rules)

end

/-- One question to the shared rule at an index below `n`; it can reach only the rules before
it. -/
def askShared (query : L → Bool × L) : Nat → Nat → StateM (List (Rule L)) Bool
  | 0, _ => return false
  | n + 1, i =>
    if i = n then do
      match (← get)[n]? with
      | none => return false
      | some rule =>
        let (stop, rule) ← ask query (askShared query n) rule
        modify fun rules => rules.set n rule
        return stop
    else askShared query n i

end Ask

end Rule

/-! ## 3. A rule with its shared rules -/

/-- A stopping criterion: the rule that is asked, and the rules it shares. -/
structure Stopping (L : Type) where
  shared : List (Rule L) := []
  root : Rule L

namespace Stopping

variable {K L X : Type}

/-- One question to the root. -/
def ask (query : L → Bool × L) (s : Stopping L) : Bool × Stopping L :=
  let ((stop, root), shared) := s.root.ask query (Rule.askShared query s.shared.length) s.shared
  (stop, { shared, root })

/-- A stopping criterion as a search sees it; limits look at the time and the best objective. -/
def stopper [Solution K X] (query : Int → K → L → Bool × L) : Stopper K X (Stopping L) where
  ask := fun now best _ => do
    let (stop, s) := (← Act.own).ask (query now (objective best))
    Act.become s
    return stop

end Stopping

end LargeNeighbourhood
