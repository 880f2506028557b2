/-
# The coupling of a history of registrations

A history is any list of registrations: destroy and repair operators in any order, names again and
again, restrictions that name operators which come later or never, and registrations without an
operator, which are refused.  One registration adds its item to one of the two registries, or it is
refused and changes nothing (`act_cases`).  So the registries after a history are those of its
destroy registrations alone and of its repair registrations alone (`own_registerAll`), and how the
two kinds are mixed cannot matter.

With the laws of a registry this gives the coupling after any history (`coupling_of_history`): what
counts for a pair is the last registration of its repair operator's name.
-/
import Mathlib
import LargeNeighbourhood.Proofs.Registry
import LargeNeighbourhood.Proofs.Search.Protocol

namespace LargeNeighbourhood

open Act

/-! ## 1. Histories -/

/-- The registration of an operator, or of none. -/
inductive Registration (K X ω : Type) where
  | destroy (name : String) (op? : Option (Operator K X ω))
  | repair (name : String) (op? : Option (Operator K X ω)) (onlyAfter : List String)

namespace Registration

variable {K X ω : Type}

/-- What is registered. -/
def op? : Registration K X ω → Option (Operator K X ω)
  | destroy _ op? => op?
  | repair _ op? _ => op?

/-- The call to the engine. -/
def act : Registration K X ω → Act K (Engine K X ω) Bool
  | destroy name op? => Engine.addDestroy name op?
  | repair name op? onlyAfter => Engine.addRepair name op? onlyAfter

/-- The destroy operators of a history, with their names. -/
def destroys (history : List (Registration K X ω)) : List (String × Operator K X ω) :=
  history.filterMap fun
    | destroy name (some op) => some (name, op)
    | _ => none

/-- A repair operator as it is registered. -/
structure RepairOperator (K X ω : Type) where
  run : Operator K X ω
  /-- The names of the destroy operators that it may follow; none if it may follow all. -/
  onlyAfter : List String

/-- The repair operators of a history, with their names. -/
def repairs (history : List (Registration K X ω)) : List (String × RepairOperator K X ω) :=
  history.filterMap fun
    | repair name (some run) onlyAfter => some (name, { run, onlyAfter })
    | _ => none

/-- The distinct names of destroy operators, in the order in which they first came. -/
def destroyNames (history : List (Registration K X ω)) : List String :=
  ((destroys history).map Prod.fst).eraseDups

/-- The distinct names of repair operators, in the order in which they first came. -/
def repairNames (history : List (Registration K X ω)) : List String :=
  ((repairs history).map Prod.fst).eraseDups

/-- The last repair operator that was registered by a name. -/
def lastRepair? (history : List (Registration K X ω)) (name : String) :
    Option (RepairOperator K X ω) :=
  (repairs history).reverse.lookup name

/-- The last registration of the repair operator restricts it to no destroy operators, or to some
of which this is one. -/
def Permits (history : List (Registration K X ω)) (destroy repair : String) : Prop :=
  ∃ op, lastRepair? history repair = some op ∧ (op.onlyAfter = [] ∨ destroy ∈ op.onlyAfter)

/-- The last registration of some repair operator names what is no destroy operator. -/
def NamesUnknown (history : List (Registration K X ω)) : Prop :=
  ∃ repair op, lastRepair? history repair = some op ∧
    ∃ destroy ∈ op.onlyAfter, destroy ∉ destroyNames history

/-- No repair operator may follow some destroy operator. -/
def LeavesAlone (history : List (Registration K X ω)) : Prop :=
  ∃ destroy ∈ destroyNames history, ∀ repair, ¬Permits history destroy repair

/-- The repair operators of a history without what they may follow. -/
def repairRuns (history : List (Registration K X ω)) : List (String × Operator K X ω) :=
  (repairs history).map fun x => (x.1, x.2.run)

/-- What the repair operators of a history may follow. -/
def restrictions (history : List (Registration K X ω)) : List (String × List String) :=
  (repairs history).map fun x => (x.1, x.2.onlyAfter)

/-! ## 2. What registrations do -/

/-- **All that a registration can do.**  Without an operator it is refused and changes nothing;
else it succeeds, its operator goes into its registry, and what a repair operator may follow into
the map. -/
theorem act_cases (call : Registration K X ω) (w : Setting K (Engine K X ω)) :
    (call.op? = none ∧ destroys [call] = [] ∧ repairs [call] = [] ∧
      ∃ f, result call.act w = (.error f, w) ∧ f.kind = .invalidArgument) ∨
    (call.op? ≠ none ∧ ∃ known lines, result call.act w = (.ok known,
      ⟨{ w.own with
          destroy := w.own.destroy.insertAll (destroys [call])
          repair := w.own.repair.insertAll (repairRuns [call])
          onlyAfter := w.own.onlyAfter.recordAll (restrictions [call]) }, w.rng, lines⟩)) := by
  cases call with
  | destroy name op? =>
    cases op? with
    | none => exact Or.inl ⟨rfl, rfl, rfl, _, rfl, rfl⟩
    | some op =>
      obtain ⟨known, lines, hadd⟩ :=
        Registry.result_add_some name op ⟨w.own.destroy, w.rng, w.lines⟩
      refine Or.inr ⟨Option.some_ne_none op, known, lines, ?_⟩
      rw [act, Engine.addDestroy, result_on, hadd]
      rfl
  | repair name op? onlyAfter =>
    cases op? with
    | none => exact Or.inl ⟨rfl, rfl, rfl, _, rfl, rfl⟩
    | some op =>
      obtain ⟨known, lines, hadd⟩ :=
        Registry.result_add_some name op ⟨w.own.repair, w.rng, w.lines⟩
      refine Or.inr ⟨Option.some_ne_none op, known, lines, ?_⟩
      rw [act, Engine.addRepair, result_bind, result_on, hadd]
      rfl

/-- What a history makes of an engine.  Registrations that are refused are passed over. -/
def registerAll (history : List (Registration K X ω)) (w : Setting K (Engine K X ω)) :
    Setting K (Engine K X ω) :=
  history.foldl (fun w call => (result call.act w).2) w

/-- **The two registries do not see each other**, and the map sees the repair operators only. -/
theorem own_registerAll (history : List (Registration K X ω)) (w : Setting K (Engine K X ω)) :
    (registerAll history w).own = { w.own with
      destroy := w.own.destroy.insertAll (destroys history)
      repair := w.own.repair.insertAll (repairRuns history)
      onlyAfter := w.own.onlyAfter.recordAll (restrictions history) } := by
  induction history generalizing w with
  | nil => rfl
  | cons call history ih =>
    have hd : destroys (call :: history) = destroys [call] ++ destroys history :=
      List.filterMap_append (l := [call])
    have hr : repairs (call :: history) = repairs [call] ++ repairs history :=
      List.filterMap_append (l := [call])
    have hruns : repairRuns (call :: history) = repairRuns [call] ++ repairRuns history := by
      rw [repairRuns, hr, List.map_append, repairRuns, repairRuns]
    have hnames : restrictions (call :: history) = restrictions [call] ++ restrictions history := by
      rw [restrictions, hr, List.map_append, restrictions, restrictions]
    show (registerAll history (result call.act w).2).own = _
    rw [ih, hd, hruns, hnames, Registry.insertAll_append, Registry.insertAll_append,
      Restrictions.recordAll_append]
    rcases act_cases call w with ⟨-, hnone, hnone', f, hact, -⟩ | ⟨-, known, lines, hact⟩
    · have hruns' : repairRuns [call] = [] := by rw [repairRuns, hnone', List.map_nil]
      have hnames' : restrictions [call] = [] := by rw [restrictions, hnone', List.map_nil]
      rw [hact, hnone, hruns', hnames']
      rfl
    · rw [hact]

/-- Registrations draw nothing. -/
theorem rng_registerAll (history : List (Registration K X ω)) (w : Setting K (Engine K X ω)) :
    (registerAll history w).rng = w.rng := by
  induction history generalizing w with
  | nil => rfl
  | cons call history ih =>
    show (registerAll history (result call.act w).2).rng = _
    rw [ih]
    rcases act_cases call w with ⟨-, -, -, f, hact, -⟩ | ⟨-, known, lines, hact⟩
    · rw [hact]
    · rw [hact]

/-! ## 3. The coupling after a history -/

section Coupling

variable {history : List (Registration K X ω)} {e : Engine K X ω}

/-- The engine holds what a history registered, and nothing else: the operators in their registries,
and in step with them, in the map, what the repair operators may follow. -/
structure Registered (history : List (Registration K X ω)) (e : Engine K X ω) : Prop where
  destroyNames : e.destroy.names = destroyNames history
  repairNames : e.repair.names = repairNames history
  lastRepair : ∀ name, e.repair.item? name
    = (lastRepair? history name).map RepairOperator.run
  onlyAfter : ∀ name, e.onlyAfter.find? name
    = (lastRepair? history name).bind fun op => Restrictions.entry? op.onlyAfter

/-- The last one of some named things, seen through a function. -/
theorem lookup_map {α β : Type} (f : α → β) (xs : List (String × α)) (name : String) :
    (xs.map fun x => (x.1, f x.2)).lookup name = (xs.lookup name).map f := by
  induction xs with
  | nil => rfl
  | cons x xs ih =>
    rw [List.map_cons, List.lookup_cons, List.lookup_cons, ih]
    split
    · rfl
    · rfl

theorem registered_registerAll {w : Setting K (Engine K X ω)} (hd : w.own.destroy.entries = [])
    (hr : w.own.repair.entries = []) (hm : w.own.onlyAfter = []) :
    Registered history (registerAll history w).own := by
  rw [own_registerAll]
  refine ⟨Registry.names_insertAll hd _, ?_, fun name => ?_, fun name => ?_⟩
  · rw [Registry.names_insertAll hr, repairRuns, List.map_map]
    rfl
  · rw [Registry.item?_insertAll hr, repairRuns, ← List.map_reverse, lookup_map]
    rfl
  · rw [hm, Restrictions.find?_recordAll, restrictions, ← List.map_reverse, lookup_map, lastRepair?,
      Option.bind_map]
    rfl

namespace Registered

/-- A name in the registry was registered. -/
theorem exists_lastRepair (h : Registered history e) {repair : String}
    (hrepair : repair ∈ e.repair.names) : ∃ op, lastRepair? history repair = some op := by
  obtain ⟨item, hitem⟩ := Registry.exists_item? hrepair
  rw [h.lastRepair] at hitem
  obtain ⟨op, hop, -⟩ := Option.map_eq_some_iff.1 hitem
  exact ⟨op, hop⟩

/-- A name that was registered is in the registry. -/
theorem mem_names (h : Registered history e) {repair : String} {op : RepairOperator K X ω}
    (hop : lastRepair? history repair = some op) : repair ∈ e.repair.names := by
  have hitem := h.lastRepair repair
  rw [hop, Option.map_some] at hitem
  exact List.mem_map_of_mem (Registry.mem_of_item? hitem)

/-- The map permits what the last registration permits. -/
theorem permits_map_iff (h : Registered history e) {destroy repair : String}
    (hrepair : repair ∈ e.repair.names) :
    e.onlyAfter.Permits destroy repair ↔ Permits history destroy repair := by
  obtain ⟨op, hop⟩ := h.exists_lastRepair hrepair
  have hset := h.onlyAfter repair
  rw [hop, Option.bind_some] at hset
  rw [Restrictions.permits_iff_of_entry hset, Permits, hop]
  simp

/-- Two operators that are registered may be combined if the last registrations permit it. -/
theorem permits_iff (h : Registered history e) {d r : Nat} :
    e.permits d r = true ↔ ∃ destroy repair,
      (Registration.destroyNames history)[d]? = some destroy ∧
      (Registration.repairNames history)[r]? = some repair ∧ Permits history destroy repair := by
  rw [Engine.permits_iff, ← h.destroyNames, ← h.repairNames]
  refine exists₂_congr fun destroy repair => and_congr_right fun _ => and_congr_right fun hr => ?_
  exact h.permits_map_iff (List.mem_of_getElem? hr)

theorem allows_matrix_iff (h : Registered history e) {d r : Nat} :
    e.matrix.allows d r = true ↔
      ∃ destroy repair, (Registration.destroyNames history)[d]? = some destroy ∧
        (Registration.repairNames history)[r]? = some repair ∧ Permits history destroy repair := by
  rw [Engine.matrix, Coupling.allows_ofRule_iff, h.permits_iff, Registry.size, Registry.size,
    ← h.destroyNames, ← h.repairNames]
  constructor
  · exact fun hall => hall.2.2
  · rintro ⟨destroy, repair, hd, hr, hp⟩
    obtain ⟨hdlt, -⟩ := List.getElem?_eq_some_iff.1 hd
    obtain ⟨hrlt, -⟩ := List.getElem?_eq_some_iff.1 hr
    rw [Registry.names, List.length_map] at hdlt hrlt
    exact ⟨hdlt, hrlt, destroy, repair, hd, hr, hp⟩

/-- Some last registration names an unknown destroy operator exactly where the map does. -/
theorem namesUnknown_iff (h : Registered history e) :
    NamesUnknown history ↔ e.dangling? ≠ none := by
  rw [ne_eq, Engine.dangling?_eq_none_iff, h.destroyNames]
  constructor
  · rintro ⟨repair, op, hop, destroy, hmem, hnot⟩ hall
    have hset := h.onlyAfter repair
    rw [hop, Option.bind_some, Restrictions.entry?, if_neg (List.ne_nil_of_mem hmem)] at hset
    exact hnot (hall repair (h.mem_names hop) _ hset destroy (NameSet.mem_ofNames.2 hmem))
  · intro hnot
    by_contra hnone
    refine hnot fun repair hrepair set hset destroy hdestroy => ?_
    by_contra hunknown
    obtain ⟨op, hop⟩ := h.exists_lastRepair hrepair
    rw [h.onlyAfter, hop, Option.bind_some] at hset
    exact hnone ⟨repair, op, hop, destroy,
      Restrictions.mem_of_entry hset hdestroy, hunknown⟩

/-- A destroy operator is left alone exactly where its row of the matrix is empty. -/
theorem leavesAlone_iff (h : Registered history e) :
    LeavesAlone history ↔ ¬∀ d < e.destroy.size, ∃ r, e.matrix.allows d r = true := by
  have hsize : e.destroy.size = (Registration.destroyNames history).length := by
    rw [← h.destroyNames, Registry.names, List.length_map, Registry.size]
  rw [hsize]
  constructor
  · rintro ⟨destroy, hmem, hnone⟩ hall
    obtain ⟨d, hlt, rfl⟩ := List.mem_iff_getElem.1 hmem
    obtain ⟨r, hr⟩ := hall d hlt
    obtain ⟨destroy, repair, hd, -, hp⟩ := h.allows_matrix_iff.1 hr
    rw [List.getElem?_eq_getElem hlt, Option.some.injEq] at hd
    rw [hd] at hnone
    exact hnone repair hp
  · intro hnot
    by_contra hnone
    refine hnot fun d hlt => ?_
    by_contra hempty
    refine hnone ⟨(Registration.destroyNames history)[d], List.getElem_mem hlt, ?_⟩
    intro repair hp
    obtain ⟨op, hlast, hop⟩ := hp
    obtain ⟨r, hr⟩ := List.mem_iff_getElem?.1 (h.mem_names hlast)
    rw [h.repairNames] at hr
    exact hempty ⟨r, h.allows_matrix_iff.2
      ⟨_, repair, List.getElem?_eq_getElem hlt, hr, op, hlast, hop⟩⟩

theorem coupling_error_iff (h : Registered history e) :
    (∃ f, e.coupling = .error f) ↔ NamesUnknown history ∨ LeavesAlone history := by
  rw [h.namesUnknown_iff, h.leavesAlone_iff]
  rcases hc : e.coupling with f | c
  · have hnot : ¬(e.dangling? = none ∧ ∀ d < e.destroy.size, ∃ r, e.matrix.allows d r = true) := by
      intro hok
      have hmatrix := Engine.coupling_eq_ok_iff.2 ⟨rfl, hok⟩
      rw [hc] at hmatrix
      exact absurd hmatrix (by simp)
    rw [not_and_or] at hnot
    simpa using hnot
  · obtain ⟨-, hd, hu⟩ := Engine.coupling_eq_ok_iff.1 hc
    simpa [hd] using hu

end Registered

end Coupling

/-- **The coupling of a history.**  Rows and columns are the distinct names in the order in which
they first came.  There is no coupling if and only if the last registration of some repair operator
names an unknown destroy operator, or some destroy operator is left alone; else a pair is marked
exactly where the last registration of its repair operator permits it.  The mixture of the two
kinds does not matter, a last registration without a restriction lifts every earlier one, and a
registration that is refused, for want of an operator, changes nothing. -/
theorem coupling_of_history (history : List (Registration K X ω)) (verbose : Bool)
    (rng : Generator) (lines : Array (Line K)) :
    let after (history : List (Registration K X ω)) : Engine K X ω :=
      (registerAll history ⟨{ verbose }, rng, lines⟩).own
    ((after history).destroy.names = destroyNames history ∧
      (after history).repair.names = repairNames history) ∧
    ((∃ f, (after history).coupling = .error f) ↔ NamesUnknown history ∨ LeavesAlone history) ∧
    (∀ f, (after history).coupling = .error f → f.kind = .invalidArgument) ∧
    (∀ c, (after history).coupling = .ok c →
      c.numDestroy = (destroyNames history).length ∧ c.numRepair = (repairNames history).length ∧
      ∀ d r, c.allows d r = true ↔ ∃ destroy repair, (destroyNames history)[d]? = some destroy ∧
        (repairNames history)[r]? = some repair ∧ Permits history destroy repair) ∧
    (∀ other, destroys other = destroys history → repairs other = repairs history →
      after other = after history) ∧
    (∀ name op c, (after (history ++ [.repair name (some op) []])).coupling = .ok c →
      ∀ d < c.numDestroy, ∀ r,
        (repairNames (history ++ [.repair name (some op) []]))[r]? = some name →
        c.allows d r = true) ∧
    ∀ (call : Registration K X ω) w, (call.op? = none →
        ∃ f, result call.act w = (.error f, w) ∧ f.kind = .invalidArgument) ∧
      (call.op? ≠ none → ∃ known v, result call.act w = (.ok known, v)) := by
  intro after
  have registered (history : List (Registration K X ω)) : Registered history (after history) :=
    registered_registerAll rfl rfl rfl
  have entries : ∀ history c, (after history).coupling = .ok c →
      c.numDestroy = (destroyNames history).length ∧ c.numRepair = (repairNames history).length ∧
      ∀ d r, c.allows d r = true ↔ ∃ destroy repair, (destroyNames history)[d]? = some destroy ∧
        (repairNames history)[r]? = some repair ∧ Permits history destroy repair := by
    intro history c hc
    have h := registered history
    obtain ⟨rfl, -, -⟩ := Engine.coupling_eq_ok_iff.1 hc
    rw [← h.destroyNames, ← h.repairNames]
    refine ⟨by simp [Engine.matrix, Coupling.ofRule, Registry.size, Registry.names],
      by simp [Engine.matrix, Coupling.ofRule, Registry.size, Registry.names], ?_⟩
    intro d r
    rw [h.destroyNames, h.repairNames]
    exact h.allows_matrix_iff
  refine ⟨⟨(registered history).destroyNames, (registered history).repairNames⟩,
    (registered history).coupling_error_iff, fun f => Engine.kind_of_coupling, entries history,
    ?_, ?_, ?_⟩
  · intro other hd hr
    show (registerAll other _).own = (registerAll history _).own
    rw [own_registerAll, own_registerAll, repairRuns, restrictions, hd, hr]
    rfl
  · intro name op c hc d hd r hr
    obtain ⟨hrows, -, hallows⟩ := entries _ c hc
    rw [hrows] at hd
    refine (hallows d r).2 ⟨_, name, List.getElem?_eq_getElem hd, hr, ⟨op, []⟩, ?_, Or.inl rfl⟩
    simp [lastRepair?, repairs]
  · intro call w
    rcases act_cases call w with ⟨hop, -, -, f, hact, hkind⟩ | ⟨hop, known, lines, hact⟩
    · exact ⟨fun _ => ⟨f, hact, hkind⟩, fun hne => absurd hop hne⟩
    · exact ⟨fun hnone => absurd hnone hop, fun _ => ⟨known, _, hact⟩⟩

/-- Registrations in which a restriction names an operator that comes later, one has no operator,
and one is made twice. -/
def mixed : List (Registration Int Int Unit) :=
  [.repair "lower" (some fun x => return some (x - 1)) ["swap"],
    .destroy "keep" none,
    .destroy "keep" (some fun x => return some x),
    .destroy "swap" (some fun x => return some (-x)),
    .repair "lift" (some fun x => return some (x + 1)) ["lost"],
    .repair "lift" (some fun x => return some (x + 2)) []]

/-- What counts of them is that "lower" may follow "swap" only, and "lift" may follow both. -/
theorem coupling_of_history_mixed :
    ∃ c, (registerAll mixed ⟨{}, ⟨0, 1⟩, #[]⟩).own.coupling = .ok c ∧
      c.allows 0 0 = false ∧ c.allows 1 0 = true ∧ c.allows 0 1 = true := by
  obtain ⟨-, herror, -, hok, -⟩ := coupling_of_history mixed false ⟨0, 1⟩ #[]
  have hdestroys : destroyNames mixed = ["keep", "swap"] := by decide
  have hrepairs : repairNames mixed = ["lower", "lift"] := by decide
  have hlower : lastRepair? mixed "lower" = some ⟨fun x => return some (x - 1), ["swap"]⟩ := rfl
  have hlift : lastRepair? mixed "lift" = some ⟨fun x => return some (x + 2), []⟩ := rfl
  -- the last registrations name "swap" at most, so nothing unknown is named
  have hlast : ∀ name op, lastRepair? mixed name = some op → ∀ d ∈ op.onlyAfter, d = "swap" := by
    intro name op h
    by_cases hl : name = "lift"
    · rw [hl, hlift, Option.some.injEq] at h
      rw [← h]
      simp
    · by_cases hn : name = "lower"
      · rw [hn, hlower, Option.some.injEq] at h
        rw [← h]
        simp
      · have hnone : lastRepair? mixed name = none := by
          simp [lastRepair?, repairs, mixed, List.lookup_cons, beq_eq_false_iff_ne.2 hl,
            beq_eq_false_iff_ne.2 hn]
        rw [hnone] at h
        exact absurd h (by simp)
  cases hc : (registerAll mixed ⟨{}, ⟨0, 1⟩, #[]⟩).own.coupling with
  | error f =>
    rcases herror.1 ⟨f, hc⟩ with ⟨repair, op, hop, d, hd, hnot⟩ | ⟨d, hd, halone⟩
    · rw [hlast repair op hop d hd, hdestroys] at hnot
      exact absurd hnot (by decide)
    · exact absurd ⟨_, hlift, Or.inl rfl⟩ (halone "lift")
  | ok c =>
    obtain ⟨-, -, hallows⟩ := hok c hc
    rw [hdestroys, hrepairs] at hallows
    refine ⟨c, rfl, ?_, ?_, ?_⟩
    · rw [Bool.eq_false_iff, ne_eq, hallows]
      rintro ⟨_, _, hd, hr, op, hop, hpermits⟩
      cases hd
      cases hr
      rw [hlower, Option.some.injEq] at hop
      rw [← hop] at hpermits
      exact absurd hpermits (by simp)
    · exact (hallows 1 0).2 ⟨"swap", "lower", rfl, rfl, _, hlower, Or.inr (by simp)⟩
    · exact (hallows 0 1).2 ⟨"keep", "lift", rfl, rfl, _, hlift, Or.inl rfl⟩

end Registration

end LargeNeighbourhood
