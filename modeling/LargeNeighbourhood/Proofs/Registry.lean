/-
# What a registry remembers

Registering does one of two things: it replaces what a known name stands for, in place, or it puts
a new name at the end (`insert_cases`).  So a registry that took in any list of named items holds
their distinct names in the order in which they first came (`names_insertAll`), and each name
stands for the last item that came with it (`item?_insertAll`).
-/
import LargeNeighbourhood.Proofs.Act
import LargeNeighbourhood.Registry
import Mathlib.Data.List.Induction
import Mathlib.Data.List.Nodup

namespace LargeNeighbourhood

namespace Registry

variable {K α : Type} {r : Registry α} {name : String} {item : α}

/-! ## 1. One registration -/

/-- What a name stands for. -/
def item? (r : Registry α) (name : String) : Option α :=
  (r.entries.find? fun e => e.name = name).map Entry.item

theorem indexOf?_eq_none_iff : r.indexOf? name = none ↔ name ∉ r.names := by
  unfold indexOf? names
  rw [List.findIdx?_eq_none_iff]
  simp

/-- Where names are distinct, a name has the index at which it stands, and no other. -/
theorem indexOf?_eq_some_iff {i : Nat} (h : r.names.Nodup) :
    r.indexOf? name = some i ↔ r.names[i]? = some name := by
  have hnames : r.indexOf? name = r.names.findIdx? fun n => n = name := by
    rw [indexOf?, names, List.findIdx?_map]
    rfl
  rw [hnames, List.findIdx?_eq_some_iff_getElem, List.getElem?_eq_some_iff]
  refine exists_congr fun hi => ?_
  rw [decide_eq_true_eq, and_iff_left_iff_imp]
  rintro rfl j hji heq
  exact Nat.ne_of_lt hji (h.getElem_inj_iff.1 (of_decide_eq_true heq))

/-- There is a name at every index below the size ... -/
theorem exists_name {i : Nat} (h : i < r.size) : ∃ name, r.names[i]? = some name := by
  rw [size, ← List.length_map Entry.name] at h
  exact ⟨_, List.getElem?_eq_getElem h⟩

/-- ... and at no other. -/
theorem lt_size_of_mem_zipIdx {x : String × Nat} (h : x ∈ r.names.zipIdx) : x.2 < r.size := by
  obtain ⟨hlt, -⟩ := List.getElem?_eq_some_iff.1 (List.mem_zipIdx_iff_getElem?.1 h)
  rwa [names, List.length_map] at hlt

/-- All that a registration can do. -/
theorem insert_cases (r : Registry α) (name : String) (item : α) :
    (∃ before e after, r.entries = before ++ e :: after ∧ e.name = name ∧
      (∀ x ∈ before, x.name ≠ name) ∧
      (r.insert name item).entries = before ++ ⟨name, item⟩ :: after) ∨
    (name ∉ r.names ∧ (r.insert name item).entries = r.entries ++ [⟨name, item⟩]) := by
  unfold insert
  cases h : r.indexOf? name with
  | none => exact Or.inr ⟨indexOf?_eq_none_iff.1 h, rfl⟩
  | some i =>
    obtain ⟨hi, hname, hbefore⟩ := List.findIdx?_eq_some_iff_getElem.1 h
    have hset : r.entries.set i ⟨name, item⟩
        = r.entries.take i ++ ⟨name, item⟩ :: r.entries.drop (i + 1) := by
      rw [List.set_eq_take_append_cons_drop, if_pos hi]
    refine Or.inl ⟨r.entries.take i, r.entries[i], r.entries.drop (i + 1), ?_, ?_, ?_, hset⟩
    · rw [← List.drop_eq_getElem_cons hi, List.take_append_drop]
    · simpa using hname
    · intro x hx
      obtain ⟨j, hj, rfl⟩ := List.mem_iff_getElem.1 hx
      rw [List.length_take] at hj
      rw [List.getElem_take]
      have hne := hbefore j (by omega)
      simpa using hne

/-- A known name keeps its place, and a new one comes last. -/
theorem names_insert (r : Registry α) (name : String) (item : α) :
    (r.insert name item).names = if name ∈ r.names then r.names else r.names ++ [name] := by
  rcases insert_cases r name item with ⟨before, e, after, hr, he, -, hins⟩ | ⟨hnew, hins⟩
  · have hmem : name ∈ r.names := by
      rw [names, hr]
      simp [he]
    rw [if_pos hmem, names, names, hins, hr]
    simp [he]
  · rw [if_neg hnew, names, names, hins]
    simp

/-- The name stands for the item from now on, and all others for what they did. -/
theorem item?_insert (r : Registry α) (name : String) (item : α) (other : String) :
    (r.insert name item).item? other = if other = name then some item else r.item? other := by
  rcases insert_cases r name item with ⟨before, e, after, hr, he, hbefore, hins⟩ | ⟨hnew, hins⟩
  · have hskip : before.find? (fun x => x.name = name) = none := by
      rw [List.find?_eq_none]
      intro x hx
      simpa using hbefore x hx
    rw [item?, item?, hins, hr]
    by_cases h : other = name
    · rw [h, if_pos rfl, List.find?_append, hskip]
      simp
    · have hne : ¬name = other := fun hn => h hn.symm
      rw [if_neg h, List.find?_append, List.find?_append]
      simp [he, hne]
  · rw [item?, item?, hins, List.find?_append]
    by_cases h : other = name
    · have hskip : r.entries.find? (fun x => x.name = name) = none := by
        rw [List.find?_eq_none]
        intro x hx hn
        exact hnew (List.mem_map.2 ⟨x, hx, by simpa using hn⟩)
      rw [h, if_pos rfl, hskip]
      simp
    · have hne : ¬name = other := fun hn => h hn.symm
      rw [if_neg h]
      simp [hne]

/-- Distinct names stay distinct. -/
theorem nodup_names_insert (h : r.names.Nodup) (name : String) (item : α) :
    (r.insert name item).names.Nodup := by
  rw [names_insert]
  split
  · exact h
  · rename_i hnew
    rw [List.nodup_append]
    refine ⟨h, List.nodup_singleton name, ?_⟩
    intro x hx y hy heq
    rw [List.mem_singleton.1 hy] at heq
    exact hnew (heq ▸ hx)

theorem exists_item? (h : name ∈ r.names) : ∃ item, r.item? name = some item := by
  obtain ⟨e, he, hname⟩ := List.mem_map.1 h
  obtain ⟨x, hx⟩ : ∃ x, r.entries.find? (fun x => x.name = name) = some x := by
    rw [← Option.isSome_iff_exists, List.find?_isSome]
    exact ⟨e, he, by simpa using hname⟩
  exact ⟨x.item, by rw [item?, hx]; rfl⟩

theorem mem_of_item? (h : r.item? name = some item) : ⟨name, item⟩ ∈ r.entries := by
  obtain ⟨e, he, rfl⟩ := Option.map_eq_some_iff.1 h
  have hname : e.name = name := by
    simpa using List.find?_some he
  rw [← hname]
  exact List.mem_of_find?_eq_some he

/-- Where names are distinct, the entries are the names with what they stand for. -/
theorem mem_entries_iff (h : r.names.Nodup) {e : Entry α} :
    e ∈ r.entries ↔ r.item? e.name = some e.item := by
  constructor
  · intro hmem
    obtain ⟨x, hx⟩ : ∃ x, r.entries.find? (fun x => x.name = e.name) = some x := by
      rw [← Option.isSome_iff_exists, List.find?_isSome]
      exact ⟨e, hmem, by simp⟩
    have hname : x.name = e.name := by
      simpa using List.find?_some hx
    have heq : x = e := List.inj_on_of_nodup_map h (List.mem_of_find?_eq_some hx) hmem hname
    rw [item?, hx, heq]
    rfl
  · exact mem_of_item?

/-- Where names are distinct, an index is known by its name. -/
theorem nameAt_inj {i j : Nat} (h : r.names.Nodup) {e : Entry α} (hi : r.entries[i]? = some e)
    {x : Entry α} (hj : r.entries[j]? = some x) (hname : x.name = e.name) : j = i := by
  have hi' : r.names[i]? = some e.name := by
    rw [names, List.getElem?_map, hi]
    rfl
  have hj' : r.names[j]? = some e.name := by
    rw [names, List.getElem?_map, hj, ← hname]
    rfl
  rw [← indexOf?_eq_some_iff h] at hi' hj'
  exact Option.some.inj (hj'.symm.trans hi')

open Act in
/-- Nothing is registered for nothing. -/
theorem result_add_none (name : String) (w : Setting K (Registry α)) :
    result (add name none) w = (.error (.emptyOperator w.own.role name), w) := rfl

open Act in
/-- An operator is registered, and a warning is said where its name was known. -/
theorem result_add_item (name : String) (item : α) (w : Setting K (Registry α)) :
    result (add name (some item)) w = (.ok (decide (name ∈ w.own.names)),
      ⟨w.own.insert name item, w.rng, w.lines ++
        if name ∈ w.own.names then #[.operatorReplaced w.own.role name] else #[]⟩) := by
  have hknown : (w.own.indexOf? name).isSome = decide (name ∈ w.own.names) := by
    rw [Bool.eq_iff_iff, decide_eq_true_eq, ← not_iff_not, Bool.not_eq_true,
      Option.isSome_eq_false_iff, Option.isNone_iff_eq_none, indexOf?_eq_none_iff]
  simp only [add, result_bind, result_own, result_sayIf, result_become, result_pure, hknown,
    decide_eq_true_eq]
  rfl

open Act in
/-- A registration with an item succeeds. -/
theorem result_add_some (name : String) (item : α) (w : Setting K (Registry α)) :
    ∃ known lines, result (add name (some item)) w =
      (.ok known, ⟨w.own.insert name item, w.rng, lines⟩) :=
  ⟨_, _, result_add_item name item w⟩

/-! ## 2. Any number of registrations -/

/-- The registry after some more named items, one after another. -/
def insertAll (r : Registry α) (items : List (String × α)) : Registry α :=
  items.foldl (fun r x => r.insert x.1 x.2) r

theorem insertAll_append (r : Registry α) (items more : List (String × α)) :
    r.insertAll (items ++ more) = (r.insertAll items).insertAll more := by
  simp only [insertAll, List.foldl_append]

/-- **The names are the distinct ones in the order in which they first came.** -/
theorem names_insertAll (h : r.entries = []) (items : List (String × α)) :
    (r.insertAll items).names = (items.map Prod.fst).eraseDups := by
  induction items using List.reverseRecOn with
  | nil => simp [insertAll, names, h]
  | append_singleton items x ih =>
    rw [insertAll_append]
    show ((r.insertAll items).insert x.1 x.2).names = _
    rw [names_insert, ih, List.map_append, List.eraseDups_append]
    by_cases hx : x.1 ∈ items.map Prod.fst
    · have hdrop : [x.1].removeAll (items.map Prod.fst) = [] := by
        rw [List.removeAll, List.filter_cons_of_neg (by simpa using hx), List.filter_nil]
      rw [if_pos (List.mem_eraseDups.2 hx), List.map_cons, List.map_nil, hdrop,
        List.eraseDups_nil, List.append_nil]
    · have hkeep : [x.1].removeAll (items.map Prod.fst) = [x.1] := by
        rw [List.removeAll, List.filter_cons_of_pos (by simpa using hx), List.filter_nil]
      rw [if_neg fun hmem => hx (List.mem_eraseDups.1 hmem), List.map_cons, List.map_nil, hkeep]
      rfl

/-- **Each name stands for the last item that came with it.** -/
theorem item?_insertAll (h : r.entries = []) (items : List (String × α)) (name : String) :
    (r.insertAll items).item? name = items.reverse.lookup name := by
  induction items using List.reverseRecOn with
  | nil => simp [insertAll, item?, h]
  | append_singleton items x ih =>
    rw [insertAll_append, List.reverse_append]
    show ((r.insertAll items).insert x.1 x.2).item? name = _
    rw [item?_insert, ih]
    obtain ⟨n, a⟩ := x
    show _ = ((n, a) :: items.reverse).lookup name
    rw [List.lookup_cons]
    by_cases hn : name = n
    · rw [if_pos hn, beq_iff_eq.2 hn]
    · rw [if_neg hn, beq_eq_false_iff_ne.2 hn]

theorem nodup_names_insertAll (h : r.names.Nodup) (items : List (String × α)) :
    (r.insertAll items).names.Nodup := by
  induction items using List.reverseRecOn with
  | nil => exact h
  | append_singleton items x ih =>
    rw [insertAll_append]
    exact nodup_names_insert ih x.1 x.2

end Registry

end LargeNeighbourhood
