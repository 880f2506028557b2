/-
# Named operators in order

A registry keeps operators in the order in which their names first came; the place of a name is
its index from then on.  Registering a name again replaces what it stands for, at the same index,
and says so.
-/
import LargeNeighbourhood.Act

namespace LargeNeighbourhood

/-- One name and what it stands for. -/
structure Entry (α : Type) where
  name : String
  item : α

/-- Entries in the order of their names' first registration, and the role they play. -/
structure Registry (α : Type) where
  role : String
  entries : List (Entry α) := []

namespace Registry

variable {K α : Type}

/-! ## 1. Looking up -/

/-- The number of names. -/
def size (r : Registry α) : Nat := r.entries.length

/-- The names in order. -/
def names (r : Registry α) : List String := r.entries.map Entry.name

/-- The index of a name. -/
def indexOf? (r : Registry α) (name : String) : Option Nat :=
  r.entries.findIdx? fun e => e.name = name

/-- The entry at an index. -/
def entry (r : Registry α) (i : Nat) : Except (Fault K) (Entry α) :=
  match r.entries[i]? with
  | some e => .ok e
  | none => .error (.operatorIndex r.role i)

/-! ## 2. Registering -/

/-- The registry after `name` came to stand for `item`: in place if the name is known, else at
the end. -/
def insert (r : Registry α) (name : String) (item : α) : Registry α :=
  match r.indexOf? name with
  | some i => { r with entries := r.entries.set i ⟨name, item⟩ }
  | none => { r with entries := r.entries ++ [⟨name, item⟩] }

/-- Registers an operator, warns if the name was known, and answers whether it was.  An empty
operator is refused. -/
def add (name : String) (item? : Option α) : Act K (Registry α) Bool := do
  let r ← Act.own
  match item? with
  | none => throw (.emptyOperator r.role name)
  | some item =>
    let known := (r.indexOf? name).isSome
    Act.sayIf known (.operatorReplaced r.role name)
    Act.become (r.insert name item)
    return known

end Registry

end LargeNeighbourhood
