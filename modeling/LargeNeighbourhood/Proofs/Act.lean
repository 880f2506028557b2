/-
# The laws of actions

`Act.result act w` is what an action makes of a setting: a value or a fault, and the setting it
leaves.  Here stand the equations that compute it for the moves of `Act`, and what it takes for
two actions in a row to succeed (`bind_ok_iff`) and to fail (`bind_error_iff`).  A proof about a
component peels its actions off one at a time with these, and never opens the monad itself.
-/
import LargeNeighbourhood.Act

namespace LargeNeighbourhood

/-! ## 1. Saying lines -/

namespace Setting

variable {K σ : Type}

/-- The setting after some more lines were said. -/
def saying (w : Setting K σ) (said : Array (Line K)) : Setting K σ :=
  { w with lines := w.lines ++ said }

@[simp] theorem own_saying (w : Setting K σ) (said : Array (Line K)) :
    (w.saying said).own = w.own := rfl

@[simp] theorem rng_saying (w : Setting K σ) (said : Array (Line K)) :
    (w.saying said).rng = w.rng := rfl

@[simp] theorem saying_empty (w : Setting K σ) : w.saying #[] = w := by
  simp [saying]

theorem saying_saying (w : Setting K σ) (said more : Array (Line K)) :
    (w.saying said).saying more = w.saying (said ++ more) := by
  simp [saying, Array.append_assoc]

end Setting

namespace Act

variable {K σ τ α β : Type}

/-! ## 2. What single moves make of a setting -/

/-- What an action makes of a setting. -/
def result (act : Act K σ α) (w : Setting K σ) : Except (Fault K) α × Setting K σ := act w

@[simp] theorem result_pure (a : α) (w : Setting K σ) :
    result (pure a : Act K σ α) w = (.ok a, w) := rfl

@[simp] theorem result_throw (f : Fault K) (w : Setting K σ) :
    result (throw f : Act K σ α) w = (.error f, w) := rfl

@[simp] theorem result_own (w : Setting K σ) :
    result (own : Act K σ σ) w = (.ok w.own, w) := rfl

@[simp] theorem result_become (s : σ) (w : Setting K σ) :
    result (become s : Act K σ Unit) w = (.ok (), { w with own := s }) := rfl

@[simp] theorem result_change (f : σ → σ) (w : Setting K σ) :
    result (change f : Act K σ Unit) w = (.ok (), { w with own := f w.own }) := rfl

@[simp] theorem result_ofExcept (r : Except (Fault K) α) (w : Setting K σ) :
    result (ofExcept r : Act K σ α) w = (r, w) := by
  cases r <;> rfl

@[simp] theorem result_draw (d : Draw α) (w : Setting K σ) :
    result (draw d : Act K σ α) w = (.ok (d w.rng).1, { w with rng := (d w.rng).2 }) := rfl

@[simp] theorem result_sample (d : Sampling K α) (w : Setting K σ) :
    result (sample d : Act K σ α) w = ((d w.rng).1, { w with rng := (d w.rng).2 }) := rfl

@[simp] theorem result_sayIf (verbose : Bool) (line : Line K) (w : Setting K σ) :
    result (sayIf verbose line : Act K σ Unit) w
      = (.ok (), w.saying (if verbose then #[line] else #[])) := by
  cases verbose
  · simp only [sayIf, Bool.false_eq_true, if_false, result_pure, Setting.saying_empty]
  · rfl

/-- Draws leave the state alone ... -/
theorem own_draw (d : Draw α) (w : Setting K σ) :
    (result (draw d : Act K σ α) w).2.own = w.own := rfl

/-- ... and so do samplings. -/
theorem own_sample (d : Sampling K α) (w : Setting K σ) :
    (result (sample d : Act K σ α) w).2.own = w.own := rfl

/-- An action of a part works on the part and leaves the rest of the whole alone. -/
theorem result_on (part : τ → σ) (restore : σ → τ → τ) (act : Act K σ α) (w : Setting K τ) :
    result (act.on part restore) w =
      ((result act ⟨part w.own, w.rng, w.lines⟩).1,
        ⟨restore (result act ⟨part w.own, w.rng, w.lines⟩).2.own w.own,
          (result act ⟨part w.own, w.rng, w.lines⟩).2.rng,
          (result act ⟨part w.own, w.rng, w.lines⟩).2.lines⟩) := rfl

/-! ## 3. Actions in a row -/

/-- The second action runs where the first one ended, unless that failed. -/
theorem result_bind (act : Act K σ α) (next : α → Act K σ β) (w : Setting K σ) :
    result (act >>= next) w = match result act w with
      | (.ok a, v) => result (next a) v
      | (.error f, v) => (.error f, v) := by
  unfold result
  show ExceptT.bindCont next (act w).1 (act w).2 = _
  rcases act w with ⟨_ | a, v⟩ <;> rfl

/-- Two actions in a row succeed when both do. -/
theorem bind_ok_iff {act : Act K σ α} {next : α → Act K σ β} {w u : Setting K σ} {b : β} :
    result (act >>= next) w = (.ok b, u) ↔
      ∃ a v, result act w = (.ok a, v) ∧ result (next a) v = (.ok b, u) := by
  rw [result_bind]
  rcases result act w with ⟨_ | a, v⟩
  · simp
  · simp only [Prod.mk.injEq, Except.ok.injEq]
    constructor
    · intro h
      exact ⟨a, v, ⟨rfl, rfl⟩, h⟩
    · rintro ⟨_, _, ⟨rfl, rfl⟩, h⟩
      exact h

/-- Two actions in a row fail when the first does, or the second after it. -/
theorem bind_error_iff {act : Act K σ α} {next : α → Act K σ β} {w u : Setting K σ}
    {f : Fault K} :
    result (act >>= next) w = (.error f, u) ↔
      result act w = (.error f, u) ∨
        ∃ a v, result act w = (.ok a, v) ∧ result (next a) v = (.error f, u) := by
  rw [result_bind]
  rcases result act w with ⟨_ | a, v⟩
  · simp
  · simp only [Prod.mk.injEq, Except.ok.injEq, reduceCtorEq, false_and, false_or]
    constructor
    · intro h
      exact ⟨a, v, ⟨rfl, rfl⟩, h⟩
    · rintro ⟨_, _, ⟨rfl, rfl⟩, h⟩
      exact h

/-- An action that fails on a condition goes on only where the condition is false. -/
theorem guard_ok_iff {c : Prop} [Decidable c] {f : Fault K} {next : Unit → Act K σ β}
    {w u : Setting K σ} {b : β} :
    result (if c then (throw f : Act K σ Unit) >>= next else next ()) w = (.ok b, u) ↔
      ¬c ∧ result (next ()) w = (.ok b, u) := by
  by_cases h : c
  · rw [if_pos h, result_bind, result_throw]
    simp [h]
  · rw [if_neg h]
    simp [h]

/-- A function of the value leaves the setting alone. -/
theorem result_map (g : α → β) (act : Act K σ α) (w : Setting K σ) :
    result (g <$> act) w = ((result act w).1.map g, (result act w).2) := by
  show result (act >>= fun a => pure (g a)) w = _
  rw [result_bind]
  rcases result act w with ⟨_ | a, v⟩ <;> rfl

/-- A check of the whole state before it is replaced. -/
theorem result_exchange (wrap : τ → σ) (r : Except (Fault K) τ) (w : Setting K σ) :
    result (do become (wrap (← ofExcept r)) : Act K σ Unit) w = match r with
      | .ok t => (.ok (), { w with own := wrap t })
      | .error f => (.error f, w) := by
  rw [result_bind, result_ofExcept]
  cases r <;> rfl

/-! ## 4. Questions to a part -/

/-- An answer of the whole comes from an answer of the part. -/
theorem map_on_ok {part : τ → σ} {restore : σ → τ → τ} {g : α → β} {act : Act K σ α}
    {w v : Setting K τ} {b : β} (h : result (g <$> act.on part restore) w = (.ok b, v)) :
    ∃ a z, b = g a ∧ result act ⟨part w.own, w.rng, w.lines⟩ = (.ok a, z) ∧
      v.own = restore z.own w.own := by
  rw [result_map, result_on] at h
  rcases hr : result act ⟨part w.own, w.rng, w.lines⟩ with ⟨f | a, z⟩
  · rw [hr] at h
    exact absurd h (by simp [Except.map])
  · rw [hr] at h
    simp only [Except.map, Prod.mk.injEq, Except.ok.injEq] at h
    obtain ⟨rfl, rfl⟩ := h
    exact ⟨a, z, rfl, rfl, rfl⟩

/-- A fault of the whole is one of the part. -/
theorem map_on_error {part : τ → σ} {restore : σ → τ → τ} {g : α → β} {act : Act K σ α}
    {w v : Setting K τ} {f : Fault K}
    (h : result (g <$> act.on part restore) w = (.error f, v)) :
    ∃ z, result act ⟨part w.own, w.rng, w.lines⟩ = (.error f, z) := by
  rw [result_map, result_on] at h
  rcases hr : result act ⟨part w.own, w.rng, w.lines⟩ with ⟨f' | a, z⟩
  · rw [hr] at h
    simp only [Except.map, Prod.mk.injEq, Except.error.injEq] at h
    obtain ⟨rfl, -⟩ := h
    exact ⟨z, rfl⟩
  · rw [hr] at h
    exact absurd h (by simp [Except.map])

end Act

end LargeNeighbourhood
