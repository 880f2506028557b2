/-
# What the restrictions leave of a coupling

The coupling of an engine is made by clearing marks: it begins with all of them, and one repair
operator after the other takes away those with destroy operators outside its set.  A mark that was
cleared is never set again, so what is left after any number of steps is what each of them leaves
(`Leaves`, `leaves_foldlM`).  A repair operator only clears marks of its own column, and so the
steps leave the matrix of the rule that it has no set, or that the destroy operator is in it
(`coupling_eq`).

The sets are kept apart from the operators, in a map.  A registration changes the entry of its own
name and no other (`Restrictions.find?_record`); that is all it takes to keep the map in step with
the registrations.
-/
import Mathlib
import LargeNeighbourhood.Proofs.Checks
import LargeNeighbourhood.Proofs.Coupling
import LargeNeighbourhood.Proofs.Registry
import LargeNeighbourhood.Search.Engine

namespace LargeNeighbourhood

/-! ## 1. The map -/

namespace NameSet

variable {x name : String} {set : NameSet}

theorem mem_insert : x ∈ insert name set ↔ x = name ∨ x ∈ set := by
  induction set with
  | nil => simp [insert]
  | cons first rest ih =>
    rw [insert]
    split
    · rename_i heq
      simp [heq]
    · split
      · simp
      · simp only [List.mem_cons, ih]
        exact or_left_comm

theorem mem_ofNames {names : List String} : x ∈ ofNames names ↔ x ∈ names := by
  induction names using List.reverseRecOn with
  | nil => simp [ofNames]
  | append_singleton names name ih =>
    rw [ofNames, List.foldl_concat, mem_insert, ← ofNames, ih, List.mem_append,
      List.mem_singleton]
    exact or_comm

end NameSet

namespace Restrictions

variable {m : Restrictions} {repair other : String} {names : List String}

theorem find?_erase :
    (m.erase repair).find? other = if other = repair then none else m.find? other := by
  unfold find? erase
  induction m with
  | nil => simp
  | cons x rest ih =>
    obtain ⟨name, set⟩ := x
    by_cases hname : name = repair
    · rw [List.filter_cons_of_neg (by simpa using hname), ih, List.lookup_cons]
      by_cases hother : other = repair
      · rw [if_pos hother, if_pos hother]
      · have hne : other ≠ name := fun heq => hother (heq.trans hname)
        rw [if_neg hother, if_neg hother, beq_eq_false_iff_ne.2 hne]
    · rw [List.filter_cons_of_pos (by simpa using hname), List.lookup_cons, List.lookup_cons, ih]
      by_cases hother : other = name
      · have hne : other ≠ repair := fun heq => hname (hother.symm.trans heq)
        rw [if_neg hne, if_neg hne, hother, beq_self_eq_true]
      · rw [beq_eq_false_iff_ne.2 hother]

/-- The entry that some names ask for: without names there is none. -/
def entry? (names : List String) : Option NameSet :=
  if names = [] then none else some (NameSet.ofNames names)

/-- **A registration changes the entry of its own name.** -/
theorem find?_record : (m.record repair names).find? other =
    if other = repair then entry? names else m.find? other := by
  unfold record entry?
  by_cases hnames : names = []
  · rw [if_pos (List.isEmpty_iff.2 hnames), find?_erase, if_pos hnames]
  · rw [if_neg fun h => hnames (List.isEmpty_iff.1 h), if_neg hnames]
    by_cases hother : other = repair
    · rw [if_pos hother, find?, List.lookup_cons, hother, beq_self_eq_true]
    · rw [if_neg hother, find?, List.lookup_cons, beq_eq_false_iff_ne.2 hother]
      exact find?_erase.trans (if_neg hother)

/-- The map after several registrations. -/
def recordAll (m : Restrictions) (items : List (String × List String)) : Restrictions :=
  items.foldl (fun m x => m.record x.1 x.2) m

theorem recordAll_append (m : Restrictions) (items more : List (String × List String)) :
    m.recordAll (items ++ more) = (m.recordAll items).recordAll more := by
  simp only [recordAll, List.foldl_append]

/-- **The last registration of a name counts.** -/
theorem find?_recordAll (items : List (String × List String)) (name : String) :
    (recordAll [] items).find? name = (items.reverse.lookup name).bind entry? := by
  induction items using List.reverseRecOn with
  | nil => rfl
  | append_singleton items x ih =>
    have hlast : recordAll [] (items ++ [x]) = (recordAll [] items).record x.1 x.2 := by
      rw [recordAll_append]
      rfl
    rw [hlast, find?_record, ih, List.reverse_append, List.reverse_singleton,
      List.singleton_append, List.lookup_cons]
    by_cases hname : name = x.1
    · rw [if_pos hname, hname, beq_self_eq_true]
      rfl
    · rw [if_neg hname, beq_eq_false_iff_ne.2 hname]

/-- A repair operator that has no set may follow all destroy operators, and one with a set those in
it. -/
def Permits (m : Restrictions) (destroy repair : String) : Prop :=
  ∀ set, m.find? repair = some set → destroy ∈ set

/-- What an entry that was asked for permits. -/
theorem permits_iff_of_entry (h : m.find? repair = entry? names) :
    m.Permits other repair ↔ names = [] ∨ other ∈ names := by
  unfold Permits
  rw [h, entry?]
  split
  · rename_i hnames
    simp [hnames]
  · rename_i hnames
    simp [hnames, NameSet.mem_ofNames]

/-- An entry that was asked for holds the names. -/
theorem mem_of_entry {set : NameSet} (h : entry? names = some set) (hmem : other ∈ set) :
    other ∈ names := by
  unfold entry? at h
  split at h
  · exact absurd h (by simp)
  · cases h
    exact NameSet.mem_ofNames.1 hmem

instance : Decidable (m.Permits other repair) :=
  match h : m.find? repair with
  | none => .isTrue fun set hset => absurd (h.symm.trans hset) (Option.some_ne_none set).symm
  | some set =>
    decidable_of_iff (other ∈ set)
      ⟨fun hmem _ heq => Option.some.inj (h.symm.trans heq) ▸ hmem, fun hall => hall set h⟩

end Restrictions

/-! ## 2. Clearing -/

namespace Coupling

variable {ε α : Type} {c t u : Coupling} {keep keep' : Nat → Nat → Prop}

/-- Of the marks of a matrix those are left that are kept. -/
structure Leaves (c t : Coupling) (keep : Nat → Nat → Prop) : Prop where
  numDestroy_eq : t.numDestroy = c.numDestroy
  numRepair_eq : t.numRepair = c.numRepair
  allows_iff : ∀ d r, t.allows d r = true ↔ c.allows d r = true ∧ keep d r

namespace Leaves

theorem refl (h : ∀ d r, c.allows d r = true → keep d r) : c.Leaves c keep :=
  ⟨rfl, rfl, fun d r => (and_iff_left_of_imp (h d r)).symm⟩

theorem trans (h : c.Leaves t keep) (h' : t.Leaves u keep') :
    c.Leaves u fun d r => keep d r ∧ keep' d r where
  numDestroy_eq := h'.numDestroy_eq.trans h.numDestroy_eq
  numRepair_eq := h'.numRepair_eq.trans h.numRepair_eq
  allows_iff d r := by rw [h'.allows_iff, h.allows_iff, and_assoc]

theorem congr (h : c.Leaves t keep) (hkeep : ∀ d r, c.allows d r = true → (keep d r ↔ keep' d r)) :
    c.Leaves t keep' where
  numDestroy_eq := h.numDestroy_eq
  numRepair_eq := h.numRepair_eq
  allows_iff d r := by
    rw [h.allows_iff]
    exact and_congr_right (hkeep d r)

/-- What all pairs are left with is the matrix of what is kept. -/
theorem eq_ofRule {numDestroy numRepair : Nat} {rule : Nat → Nat → Bool}
    (h : (all numDestroy numRepair).Leaves t keep)
    (hrule : ∀ d < numDestroy, ∀ r < numRepair, (keep d r ↔ rule d r = true)) :
    t = ofRule numDestroy numRepair rule := by
  have hd : t.numDestroy = numDestroy := h.numDestroy_eq
  have hr : t.numRepair = numRepair := h.numRepair_eq
  refine eq_iff_allows.2 ⟨hd, hr, fun d hdlt r hrlt => ?_⟩
  rw [hd] at hdlt
  rw [hr] at hrlt
  have hall : (all numDestroy numRepair).allows d r = true := allows_ofRule hdlt hrlt
  rw [Bool.eq_iff_iff, h.allows_iff, allows_ofRule hdlt hrlt, ← hrule d hdlt r hrlt]
  exact and_iff_right hall

end Leaves

/-- **What a sequence of steps leaves is what each of them leaves**, if no step fails. -/
theorem leaves_foldlM {xs : List α} {step : Coupling → α → Except ε Coupling}
    {kept : α → Nat → Nat → Prop} (c : Coupling)
    (hstep : ∀ x ∈ xs, ∀ t : Coupling, t.numDestroy = c.numDestroy → t.numRepair = c.numRepair →
      ∃ u, step t x = .ok u ∧ t.Leaves u (kept x)) :
    ∃ t, xs.foldlM step c = .ok t ∧ c.Leaves t fun d r => ∀ x ∈ xs, kept x d r := by
  induction xs generalizing c with
  | nil => exact ⟨c, rfl, .refl fun _ _ _ _ hx => absurd hx List.not_mem_nil⟩
  | cons x xs ih =>
    obtain ⟨hx, hxs⟩ := List.forall_mem_cons.1 hstep
    obtain ⟨t, ht, hleaves⟩ := hx c rfl rfl
    obtain ⟨u, hu, hrest⟩ := ih t fun y hy s hd hr =>
      hxs y hy s (hd.trans hleaves.numDestroy_eq) (hr.trans hleaves.numRepair_eq)
    refine ⟨u, ?_, (hleaves.trans hrest).congr fun d r _ => ?_⟩
    · rw [List.foldlM_cons, ht]
      exact hu
    · rw [List.forall_mem_cons]

end Coupling

/-! ## 3. The matrix of permitted pairs -/

namespace Engine

variable {K X ω : Type} {e : Engine K X ω} {c : Coupling}

/-- The destroy operator at one index may be followed by the repair operator at another. -/
def permits (e : Engine K X ω) (d r : Nat) : Bool :=
  match e.destroy.names[d]?, e.repair.names[r]? with
  | some destroy, some repair => decide (e.onlyAfter.Permits destroy repair)
  | _, _ => false

theorem permits_iff {d r : Nat} : e.permits d r = true ↔
    ∃ destroy repair, e.destroy.names[d]? = some destroy ∧ e.repair.names[r]? = some repair ∧
      e.onlyAfter.Permits destroy repair := by
  unfold permits
  constructor
  · intro h
    split at h
    · rename_i destroy repair hd hr
      exact ⟨destroy, repair, hd, hr, of_decide_eq_true h⟩
    · exact absurd h (by simp)
  · rintro ⟨destroy, repair, hd, hr, h⟩
    rw [hd, hr]
    exact decide_eq_true h

/-- The matrix of permitted pairs. -/
def matrix (e : Engine K X ω) : Coupling :=
  Coupling.ofRule e.destroy.size e.repair.size e.permits

/-- The unknown destroy operator that a repair operator names, with both names. -/
def danglingAt? (e : Engine K X ω) (repair : String) : Option (String × String) :=
  (e.onlyAfter.find? repair).bind fun names =>
    (e.unknownAmong? names).map fun destroy => (repair, destroy)

/-- The first repair operator that names an unknown destroy operator, and that name. -/
def dangling? (e : Engine K X ω) : Option (String × String) :=
  e.repair.names.findSome? e.danglingAt?

/-- The first destroy operator that no repair operator may follow. -/
def uncoupledName? (e : Engine K X ω) : Option String :=
  (e.destroy.names.zipIdx.find? fun x => (e.matrix.partners x.2).isEmpty).map Prod.fst

/-- **A column loses the marks of the destroy operators outside the set.** -/
theorem clearColumn_ok (names : NameSet) {r : Nat} (hd : c.numDestroy = e.destroy.size)
    (hr : r < c.numRepair) :
    ∃ t, (e.clearColumn names r c : Except (Fault K) Coupling) = .ok t ∧
      c.Leaves t fun d j => j = r → ∀ destroy, e.destroy.names[d]? = some destroy →
        destroy ∈ names := by
  have hstep : ∀ x ∈ e.destroy.names.zipIdx, ∀ t : Coupling, t.numDestroy = c.numDestroy →
      t.numRepair = c.numRepair →
      ∃ u, (if names.contains x.1 then return t else t.set x.2 r false : Except (Fault K) Coupling)
          = .ok u ∧ t.Leaves u fun d j => d = x.2 → j = r → x.1 ∈ names := by
    intro x hx t htd htr
    by_cases hmem : x.1 ∈ names
    · exact ⟨t, if_pos (List.contains_iff_mem.2 hmem), .refl fun _ _ _ _ _ => hmem⟩
    · obtain ⟨u, hu⟩ := Coupling.exists_set (K := K) (c := t) (d := x.2) (r := r)
        ⟨htd ▸ hd ▸ Registry.lt_size_of_mem_zipIdx hx, htr ▸ hr⟩ false
      refine ⟨u, (if_neg (mt List.contains_iff_mem.1 hmem)).trans hu, (Coupling.shape_set hu).1,
        (Coupling.shape_set hu).2, fun d j => ?_⟩
      rw [Coupling.allows_of_set hu]
      by_cases hpair : d = x.2 ∧ j = r
      · simp [hpair, hmem]
      · have hkept : d = x.2 → j = r → x.1 ∈ names := fun h h' => absurd ⟨h, h'⟩ hpair
        rw [if_neg hpair, and_iff_left hkept]
  obtain ⟨t, ht, hleaves⟩ := Coupling.leaves_foldlM c hstep
  refine ⟨t, ht, hleaves.congr fun d j _ => ?_⟩
  constructor
  · exact fun h hj destroy hdestroy =>
      h (destroy, d) (List.mem_zipIdx_iff_getElem?.2 hdestroy) rfl hj
  · rintro h ⟨destroy, i⟩ hx rfl hj
    exact h hj destroy (List.mem_zipIdx_iff_getElem?.1 hx)

/-- **All that restricting a repair operator can do.**  It names an unknown destroy operator, or its
column keeps the marks of the destroy operators that it may follow. -/
theorem restrict_cases {x : String × Nat} (hd : c.numDestroy = e.destroy.size)
    (hx : x.2 < c.numRepair) :
    (∃ destroy, e.danglingAt? x.1 = some (x.1, destroy) ∧
      (e.restrict c x : Except (Fault K) Coupling) = .error (.unknownDestroy x.1 destroy)) ∨
    (e.danglingAt? x.1 = none ∧ ∃ t, (e.restrict c x : Except (Fault K) Coupling) = .ok t ∧
      c.Leaves t fun d r => r = x.2 → ∀ destroy, e.destroy.names[d]? = some destroy →
        e.onlyAfter.Permits destroy x.1) := by
  obtain ⟨repair, r⟩ := x
  unfold danglingAt? restrict
  simp only
  cases hset : e.onlyAfter.find? repair with
  | none =>
    refine Or.inr ⟨rfl, c, rfl, .refl fun d j _ _ destroy _ set hset' => ?_⟩
    exact absurd (hset.symm.trans hset') (Option.some_ne_none set).symm
  | some set =>
    simp only [Option.bind_some]
    cases hunknown : e.unknownAmong? set with
    | some destroy => exact Or.inl ⟨destroy, rfl, rfl⟩
    | none =>
      obtain ⟨t, ht, hleaves⟩ := clearColumn_ok (K := K) set hd hx
      refine Or.inr ⟨rfl, t, ht, hleaves.congr fun d j _ => ?_⟩
      refine forall₃_congr fun _ destroy _ => ?_
      simp [Restrictions.Permits, hset]

/-- The restrictions of some repair operators, one after the other. -/
theorem foldlM_restrict_cases {xs : List (String × Nat)} (hd : c.numDestroy = e.destroy.size)
    (hxs : ∀ x ∈ xs, x.2 < c.numRepair) :
    (∃ repair destroy, (xs.map Prod.fst).findSome? e.danglingAt? = some (repair, destroy) ∧
      (xs.foldlM e.restrict c : Except (Fault K) Coupling)
        = .error (.unknownDestroy repair destroy)) ∨
    ((xs.map Prod.fst).findSome? e.danglingAt? = none ∧
      ∃ t, (xs.foldlM e.restrict c : Except (Fault K) Coupling) = .ok t ∧
        c.Leaves t fun d r => ∀ x ∈ xs, r = x.2 → ∀ destroy,
          e.destroy.names[d]? = some destroy → e.onlyAfter.Permits destroy x.1) := by
  induction xs generalizing c with
  | nil =>
    exact Or.inr ⟨rfl, c, rfl, .refl fun _ _ _ _ hx => absurd hx List.not_mem_nil⟩
  | cons x xs ih =>
    obtain ⟨hx, hrest⟩ := List.forall_mem_cons.1 hxs
    rw [List.map_cons, List.findSome?_cons, List.foldlM_cons]
    rcases restrict_cases (K := K) hd hx with ⟨destroy, hdangling, hfail⟩ | ⟨hnone, t, ht, hleaves⟩
    · rw [hdangling, hfail]
      exact Or.inl ⟨x.1, destroy, rfl, rfl⟩
    · rw [hnone, ht]
      rcases ih (c := t) (hleaves.numDestroy_eq.trans hd)
          (fun y hy => hleaves.numRepair_eq ▸ hrest y hy) with hfail | ⟨hnone, u, hu, hmore⟩
      · exact Or.inl hfail
      · refine Or.inr ⟨hnone, u, hu, (hleaves.trans hmore).congr fun d r _ => ?_⟩
        rw [List.forall_mem_cons]

/-- The check for partners finds the first destroy operator without one. -/
theorem checkPartners_eq (hd : c.numDestroy = e.destroy.size) :
    (e.checkPartners c : Except (Fault K) Unit) =
      match (e.destroy.names.zipIdx.find? fun x => (c.partners x.2).isEmpty).map Prod.fst with
      | some destroy => .error (.uncoupledName destroy)
      | none => .ok () := by
  have hrows : ∀ x ∈ e.destroy.names.zipIdx, x.2 < c.numDestroy := fun x hx =>
    hd ▸ Registry.lt_size_of_mem_zipIdx hx
  unfold checkPartners
  generalize e.destroy.names.zipIdx = xs at hrows ⊢
  induction xs with
  | nil => rfl
  | cons x xs ih =>
    obtain ⟨hx, hrest⟩ := List.forall_mem_cons.1 hrows
    have hread : (c.coupledRepair x.2 : Except (Fault K) (List Nat)) = .ok (c.partners x.2) :=
      if_pos (Or.inl hx)
    rw [Checks.forM_cons, List.find?_cons]
    simp only [hread]
    cases hempty : (c.partners x.2).isEmpty with
    | true => simp [bind, Except.bind, hempty, throw, throwThe, MonadExceptOf.throw]
    | false => simpa [bind, Except.bind, hempty, pure, Except.pure] using ih hrest

/-- **The registrations imply the matrix of permitted pairs**, unless a repair operator names an
unknown destroy operator, or some destroy operator is left without a partner. -/
theorem coupling_eq (e : Engine K X ω) : (e.coupling : Except (Fault K) Coupling) =
    match e.dangling? with
    | some (repair, destroy) => .error (.unknownDestroy repair destroy)
    | none =>
      match e.uncoupledName? with
      | some destroy => .error (.uncoupledName destroy)
      | none => .ok e.matrix := by
  have hdangling? : e.dangling? = (e.repair.names.zipIdx.map Prod.fst).findSome? e.danglingAt? := by
    rw [dangling?, List.zipIdx_map_fst]
  unfold coupling
  rw [hdangling?]
  have hnumbers : ∀ x ∈ e.repair.names.zipIdx, x.2 < e.repair.size := fun _ hx =>
    Registry.lt_size_of_mem_zipIdx hx
  rcases foldlM_restrict_cases (K := K) (e := e) (c := Coupling.all e.destroy.size e.repair.size)
      rfl hnumbers with
    ⟨repair, destroy, hdangling, hfail⟩ | ⟨hnone, t, ht, hleaves⟩
  · rw [hdangling, hfail]
    rfl
  · have hmatrix : t = e.matrix := by
      refine hleaves.eq_ofRule fun d hd r hr => ?_
      obtain ⟨destroy, hdestroy⟩ := Registry.exists_name hd
      obtain ⟨repair, hrepair⟩ := Registry.exists_name hr
      rw [permits_iff]
      constructor
      · exact fun h => ⟨destroy, repair, hdestroy, hrepair,
          h (repair, r) (List.mem_zipIdx_iff_getElem?.2 hrepair) rfl destroy hdestroy⟩
      · rintro ⟨destroy', repair', hdestroy', hrepair', h⟩ ⟨name, i⟩ hx rfl other hother
        cases hdestroy'.symm.trans hother
        cases hrepair'.symm.trans (List.mem_zipIdx_iff_getElem?.1 hx)
        exact h
    rw [hnone, ht, hmatrix]
    show (e.checkPartners e.matrix >>= fun _ => pure e.matrix) = _
    rw [checkPartners_eq (c := e.matrix) rfl, ← uncoupledName?]
    cases e.uncoupledName? with
    | none => rfl
    | some destroy => rfl

end Engine

end LargeNeighbourhood
