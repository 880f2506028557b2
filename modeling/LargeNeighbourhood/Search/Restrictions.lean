/-
# Which destroy operators a repair operator may follow

A repair operator may be restricted to destroy operators of some names.  The restrictions are kept
apart from the operators themselves, in a map from names of repair operators to sets of names; an
operator that may follow all has no entry there.  Sets are kept in byte order, so whoever goes over
one meets its names in that order.
-/

namespace LargeNeighbourhood

/-- A set of names, in byte order. -/
abbrev NameSet := List String

namespace NameSet

/-- Puts a name at its place, if it is not there. -/
def insert (name : String) : NameSet → NameSet
  | [] => [name]
  | first :: rest =>
    if name = first then first :: rest
    else if name < first then name :: first :: rest
    else first :: insert name rest

/-- The set of some names. -/
def ofNames (names : List String) : NameSet := names.foldl (fun set name => insert name set) []

end NameSet

/-- Sets of names of destroy operators, by names of repair operators. -/
abbrev Restrictions := List (String × NameSet)

namespace Restrictions

/-- The set of a repair operator, if it has one. -/
def find? (m : Restrictions) (repair : String) : Option NameSet := m.lookup repair

/-- The map without an entry for a repair operator. -/
def erase (m : Restrictions) (repair : String) : Restrictions := m.filter fun x => x.1 ≠ repair

/-- The map after a repair operator was registered: no names lift a restriction. -/
def record (m : Restrictions) (repair : String) (names : List String) : Restrictions :=
  if names.isEmpty then m.erase repair else (repair, NameSet.ofNames names) :: m.erase repair

end Restrictions

end LargeNeighbourhood
