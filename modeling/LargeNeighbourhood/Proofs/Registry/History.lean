/-
# Indices are given once

Selection schemes, couplings and records know operators by their indices, so an index has to mean the
same name for as long as a registry lives.  A registration does one of three things: it is refused and
changes nothing (`result_add_none`), it replaces what a known name stands for, with a warning, or it
puts a new name at the end (`result_add_item`).  In none of them does a name move, so the names of a
registry are a prefix of its names at any later time (`names_prefix`), and what was found in the prefix
is found where it was.

That a name is found at one place only is the other half: names stay distinct, and so the name at an
index leads back to that index (`indexOf?_eq_some_iff`).
-/
import LargeNeighbourhood.Proofs.Registry

namespace LargeNeighbourhood

open Act

namespace Registry

variable {K α : Type} {r : Registry α} {name : String} {item : α} {i : Nat}

/-! ## 1. Looking up -/

/-- There is an entry at every index below the size and at no other. -/
theorem entry_error_iff {f : Fault K} :
    r.entry i = .error f ↔ r.size ≤ i ∧ f = .operatorIndex r.role i := by
  rw [entry, size, ← List.getElem?_eq_none_iff]
  cases r.entries[i]? with
  | none => simp [eq_comm]
  | some e => simp

/-! ## 2. One registration -/

theorem role_insert (r : Registry α) (name : String) (item : α) :
    (r.insert name item).role = r.role := by
  unfold insert
  split <;> rfl

/-! ## 3. Histories -/

/-- A registration of an operator, or of none. -/
structure Addition (α : Type) where
  name : String
  item? : Option α

/-- The registrations of a history that bring an operator. -/
def taken (history : List (Addition α)) : List (String × α) :=
  history.filterMap fun call => call.item?.map fun item => (call.name, item)

/-- What a history makes of a registry.  Registrations that are refused are passed over. -/
def addAll (history : List (Addition α)) (w : Setting K (Registry α)) : Setting K (Registry α) :=
  history.foldl (fun w call => (result (add call.name call.item?) w).2) w

theorem addAll_append (history more : List (Addition α)) (w : Setting K (Registry α)) :
    addAll (history ++ more) w = addAll more (addAll history w) := by
  rw [addAll, List.foldl_append]
  rfl

/-- **What counts of a history are the registrations that bring an operator.** -/
theorem own_addAll (history : List (Addition α)) (w : Setting K (Registry α)) :
    (addAll history w).own = w.own.insertAll (taken history) := by
  induction history generalizing w with
  | nil => rfl
  | cons call history ih =>
    obtain ⟨name, item?⟩ := call
    show (addAll history (result (add name item?) w).2).own = _
    rw [ih]
    cases item? with
    | none =>
      rw [result_add_none]
      rfl
    | some item =>
      rw [result_add_item]
      rfl

theorem role_insertAll (r : Registry α) (items : List (String × α)) :
    (r.insertAll items).role = r.role := by
  induction items generalizing r with
  | nil => rfl
  | cons x items ih => exact (ih _).trans (role_insert r x.1 x.2)

/-- **No name ever moves.** -/
theorem names_prefix (r : Registry α) (items : List (String × α)) :
    r.names <+: (r.insertAll items).names := by
  induction items generalizing r with
  | nil => exact List.prefix_rfl
  | cons x items ih =>
    refine List.IsPrefix.trans ?_ (ih (r.insert x.1 x.2))
    rw [names_insert]
    split
    · exact List.prefix_rfl
    · exact List.prefix_append ..

/-- **Indices are given once.**  After any history the names are distinct and stand in the order in which
they were first registered; looking up the name at an index leads back to it, looking up any other name
leads nowhere, and no later history moves a name.  At an index is what was registered last by its name,
and there is no index beyond the size.  A registration warns, and says so, exactly where the name was
known; one without an operator is refused and changes nothing. -/
theorem indices_of_history (role : String) (history : List (Addition α)) (rng : Generator)
    (lines : Array (Line K)) :
    let after (history : List (Addition α)) : Setting K (Registry α) :=
      addAll history ⟨{ role }, rng, lines⟩
    let r := (after history).own
    r.names.Nodup ∧ r.names = ((taken history).map Prod.fst).eraseDups ∧
    (∀ i < r.size, ∃ name item, (r.entry i : Except (Fault K) (Entry α)) = .ok ⟨name, item⟩ ∧
      r.names[i]? = some name ∧ r.indexOf? name = some i ∧
      (taken history).reverse.lookup name = some item) ∧
    (∀ name, r.indexOf? name = none ↔ name ∉ r.names) ∧
    (∀ i (f : Fault K), r.entry i = .error f ↔ r.size ≤ i ∧ f = .operatorIndex role i) ∧
    (∀ more name i, r.indexOf? name = some i →
      (after (history ++ more)).own.indexOf? name = some i) ∧
    (∀ name item, result (add name (some item)) (after history)
      = (.ok (decide (name ∈ r.names)), ⟨r.insert name item, (after history).rng, (after history).lines ++
          if name ∈ r.names then #[.operatorReplaced role name] else #[]⟩)) ∧
    (∀ name, result (add name none) (after history)
      = (.error (.emptyOperator role name), after history)) ∧
    ∀ name i, (Line.operatorReplaced role name : Line K).channel = .warning ∧
      (Fault.operatorIndex role i : Fault K).kind = .outOfRange ∧
      (Fault.emptyOperator role name : Fault K).kind = .invalidArgument := by
  intro after r
  have hafter : ∀ history, (after history).own = insertAll { role } (taken history) :=
    fun history => own_addAll history _
  have hnodup : ∀ history, (after history).own.names.Nodup := by
    intro history
    rw [hafter]
    exact nodup_names_insertAll (r := { role }) List.nodup_nil _
  have hrole : r.role = role := (congrArg Registry.role (hafter history)).trans (role_insertAll _ _)
  refine ⟨hnodup history, ?_, fun i hi => ?_, fun name => indexOf?_eq_none_iff, fun i f => ?_,
    fun more name i hindex => ?_, fun name item => ?_, fun name => ?_,
    fun name i => ⟨rfl, rfl, rfl⟩⟩
  · exact (congrArg names (hafter history)).trans (names_insertAll rfl _)
  · have hi : i < r.entries.length := hi
    have hentry : r.entries[i]? = some r.entries[i] := List.getElem?_eq_getElem hi
    have hname : r.names[i]? = some r.entries[i].name := by
      rw [names, List.getElem?_map, hentry]
      rfl
    have hitem : r.item? r.entries[i].name = some r.entries[i].item :=
      (mem_entries_iff (hnodup history)).1 (List.getElem_mem hi)
    have hlast : r.item? r.entries[i].name = (taken history).reverse.lookup r.entries[i].name :=
      (congrArg (item? · r.entries[i].name) (hafter history)).trans (item?_insertAll rfl _ _)
    exact ⟨r.entries[i].name, r.entries[i].item, by rw [entry, hentry], hname,
      (indexOf?_eq_some_iff (hnodup history)).2 hname, hlast.symm.trans hitem⟩
  · rw [entry_error_iff, hrole]
  · have hlater : (after (history ++ more)).own = r.insertAll (taken more) := by
      show (addAll (history ++ more) _).own = _
      rw [addAll_append, own_addAll]
    rw [indexOf?_eq_some_iff (hnodup _)] at hindex ⊢
    obtain ⟨hi, hname⟩ := List.getElem?_eq_some_iff.1 hindex
    rw [hlater, List.prefix_iff_getElem?.1 (r.names_prefix (taken more)) i hi, hname]
  · rw [result_add_item, ← hrole]
  · rw [result_add_none, ← hrole]

/-- Registrations of which the second brings nothing and the last repeats a name. -/
def repeated : List (Addition Nat) :=
  [⟨"worst", some 1⟩, ⟨"random", none⟩, ⟨"random", some 2⟩, ⟨"worst", some 3⟩]

/-- The repeated name keeps the first index and has the last item, and the name after it keeps its index
also when more is registered. -/
theorem indices_of_history_repeated :
    let after (history : List (Addition Nat)) : Setting Int (Registry Nat) :=
      addAll history ⟨{ role := "destroy" }, ⟨0, 1⟩, #[]⟩
    let r := (after repeated).own
    r.names = ["worst", "random"] ∧
    (r.entry 0 : Except (Fault Int) (Entry Nat)) = .ok ⟨"worst", 3⟩ ∧
    r.indexOf? "random" = some 1 ∧
    (after (repeated ++ [⟨"greedy", some 4⟩, ⟨"worst", some 5⟩])).own.indexOf? "random" = some 1 ∧
    (r.entry 2 : Except (Fault Int) (Entry Nat)) = .error (.operatorIndex "destroy" 2) ∧
    ∃ v, result (add "worst" (some 6)) (after repeated) = (.ok true, v) ∧
      v.lines = (after repeated).lines ++ #[.operatorReplaced "destroy" "worst"] := by
  intro after r
  obtain ⟨-, hnames, hentry, -, hnone, hlater, hadd, -⟩ :=
    indices_of_history "destroy" repeated ⟨0, 1⟩ (#[] : Array (Line Int))
  have htwo : r.names = ["worst", "random"] := hnames.trans (by decide)
  have hsize : r.size = 2 := (List.length_map Entry.name).symm.trans (congrArg List.length htwo)
  have hlookup : (taken repeated).reverse.lookup "worst" = some 3 := rfl
  obtain ⟨first, item, hfirst, hname, -, hitem⟩ := hentry 0 (by rw [hsize]; decide)
  obtain rfl : "worst" = first := by
    rw [htwo] at hname
    exact Option.some.inj hname
  obtain rfl : 3 = item := Option.some.inj (hlookup.symm.trans hitem)
  obtain ⟨second, -, -, hname, hindex, -⟩ := hentry 1 (by rw [hsize]; decide)
  obtain rfl : "random" = second := by
    rw [htwo] at hname
    exact Option.some.inj hname
  have hknown : "worst" ∈ r.names := by
    rw [htwo]
    decide
  have hworst := hadd "worst" 6
  rw [decide_eq_true hknown, if_pos hknown] at hworst
  exact ⟨htwo, hfirst, hindex, hlater _ _ _ hindex, (hnone 2 _).2 ⟨Nat.le_of_eq hsize, rfl⟩,
    _, hworst, rfl⟩

end Registry

end LargeNeighbourhood
