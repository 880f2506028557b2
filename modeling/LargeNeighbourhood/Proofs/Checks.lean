/-
# What a chain of checks establishes

Constructors and the checks before a run are written as a chain in `Except`: a condition that
fails ends the chain, and the value at the end is there only if none did.  With these equations
`simp only` turns the success of such a chain into the conjunction of what was checked, and its
failure into the disjunction of what can go wrong.
-/

namespace LargeNeighbourhood

namespace Checks

variable {ε α β : Type}

/-! ## 1. Success -/

theorem pure_ok_iff {a b : α} : (pure a : Except ε α) = .ok b ↔ a = b := by
  simp [pure, Except.pure]

theorem throw_ok_iff {f : ε} {a : α} : (throw f : Except ε α) = .ok a ↔ False := by
  simp [throw, throwThe, MonadExceptOf.throw]

theorem bind_ok_iff {x : Except ε α} {next : α → Except ε β} {b : β} :
    (x >>= next) = .ok b ↔ ∃ a, x = .ok a ∧ next a = .ok b := by
  cases x with
  | error f => simp [bind, Except.bind]
  | ok a => simp [bind, Except.bind]

/-- A chain that fails on a condition goes on only where the condition is false. -/
theorem guard_ok_iff {c : Prop} [Decidable c] {f : ε} {next : Unit → Except ε α} {a : α} :
    (if c then (throw f : Except ε Unit) >>= next else next ()) = .ok a ↔
      ¬c ∧ next () = .ok a := by
  by_cases h : c
  · rw [if_pos h, bind_ok_iff]
    simp [throw_ok_iff, h]
  · rw [if_neg h]
    simp [h]

/-! ## 2. Failure -/

theorem pure_error_iff {a : α} {f : ε} : (pure a : Except ε α) = .error f ↔ False := by
  simp [pure, Except.pure]

theorem throw_error_iff {f g : ε} : (throw f : Except ε α) = .error g ↔ f = g := by
  simp [throw, throwThe, MonadExceptOf.throw]

theorem bind_error_iff {x : Except ε α} {next : α → Except ε β} {f : ε} :
    (x >>= next) = .error f ↔ x = .error f ∨ ∃ a, x = .ok a ∧ next a = .error f := by
  cases x with
  | error g => simp [bind, Except.bind]
  | ok a => simp [bind, Except.bind]

/-- A chain that fails on a condition fails with its fault where the condition holds. -/
theorem guard_error_iff {c : Prop} [Decidable c] {f g : ε} {next : Unit → Except ε α} :
    (if c then (throw f : Except ε Unit) >>= next else next ()) = .error g ↔
      (c ∧ f = g) ∨ (¬c ∧ next () = .error g) := by
  by_cases h : c
  · rw [if_pos h, bind_error_iff]
    simp [throw_error_iff, throw_ok_iff, h]
  · rw [if_neg h]
    simp [h]

/-! ## 3. A check of every member -/

theorem forM_cons (check : α → Except ε Unit) (x : α) (xs : List α) :
    (x :: xs).forM check = check x >>= fun _ => xs.forM check := rfl

theorem forM_ok_iff {xs : List α} {check : α → Except ε Unit} :
    xs.forM check = .ok () ↔ ∀ x ∈ xs, check x = .ok () := by
  induction xs with
  | nil => exact ⟨fun _ _ h => absurd h List.not_mem_nil, fun _ => rfl⟩
  | cons x xs ih =>
    rw [forM_cons, bind_ok_iff, List.forall_mem_cons, ← ih]
    exact ⟨fun ⟨_, hx, hxs⟩ => ⟨hx, hxs⟩, fun ⟨hx, hxs⟩ => ⟨(), hx, hxs⟩⟩

/-- It fails where some member fails. -/
theorem exists_of_forM_error {xs : List α} {check : α → Except ε Unit} {f : ε}
    (h : xs.forM check = .error f) : ∃ x ∈ xs, check x = .error f := by
  induction xs with
  | nil => cases h
  | cons x xs ih =>
    rw [forM_cons, bind_error_iff] at h
    rcases h with hx | ⟨_, -, hxs⟩
    · exact ⟨x, List.mem_cons_self, hx⟩
    · obtain ⟨y, hy, hfail⟩ := ih hxs
      exact ⟨y, List.mem_cons_of_mem _ hy, hfail⟩

end Checks

end LargeNeighbourhood
