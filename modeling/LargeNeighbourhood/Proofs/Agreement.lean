/-
# Two actions in lock-step

Two actions agree (`Act.Agree`) if from related settings they come back alike, both with related
values or both with the same fault, and leave related settings.  The two may be actions of
different components, so a relation between settings can say what two runs have in common while
something in them differs.

Agreement goes through actions in a row: the second actions need agree only where the first came
back alike (`Agree.bind`).

The relation met most is `Setting.Over`: the states are related, the generators are the same, and of
the logs nothing is asked.  An action that agrees with itself from settings that differ in the log
alone is `Act.Deaf`: nothing it does depends on the lines that were said.
-/
import LargeNeighbourhood.Proofs.Act

namespace LargeNeighbourhood

/-- The states are related, the generators are the same, and the logs may be anything. -/
structure Setting.Over {K σ τ : Type} (T : σ → τ → Prop) (w : Setting K σ) (w' : Setting K τ) :
    Prop where
  own : T w.own w'.own
  rng : w.rng = w'.rng

/-- The warnings among some lines, in order. -/
def warnings {K : Type} (lines : Array (Line K)) : List (Line K) :=
  lines.toList.filter fun line => line.channel = .warning

/-- The states are related, and the generators and the warnings are the same; of the progress that
was said nothing is asked. -/
structure Setting.Aside {K σ τ : Type} (T : σ → τ → Prop) (w : Setting K σ) (w' : Setting K τ) :
    Prop extends Setting.Over T w w' where
  warnings : warnings w.lines = warnings w'.lines

namespace Act

/-! ## 1. Agreement -/

variable {K σ τ α β γ δ : Type} {S : Setting K σ → Setting K τ → Prop} {R : α → β → Prop}
  {Q : γ → δ → Prop} {act : Act K σ α} {act' : Act K τ β}

/-- Both have values, which are related, or both have the same fault. -/
inductive Matches (R : α → β → Prop) : Except (Fault K) α → Except (Fault K) β → Prop
  | ok {a b} (related : R a b) : Matches R (.ok a) (.ok b)
  | error (f) : Matches R (.error f) (.error f)

theorem Matches.refl (r : Except (Fault K) α) : Matches Eq r r := by
  cases r with
  | error f => exact .error f
  | ok a => exact .ok rfl

theorem Matches.eq {r r' : Except (Fault K) α} (h : Matches Eq r r') : r = r' := by
  cases h with
  | ok related => rw [related]
  | error f => rfl

theorem Matches.mono {Q : α → β → Prop} {r : Except (Fault K) α} {r' : Except (Fault K) β}
    (h : Matches R r r') (hrq : ∀ a b, R a b → Q a b) : Matches Q r r' := by
  cases h with
  | ok related => exact .ok (hrq _ _ related)
  | error f => exact .error f

theorem Matches.map {g : α → γ} {g' : β → δ} {r : Except (Fault K) α} {r' : Except (Fault K) β}
    (h : Matches R r r') (hg : ∀ a b, R a b → Q (g a) (g' b)) :
    Matches Q (r.map g) (r'.map g') := by
  cases h with
  | ok related => exact .ok (hg _ _ related)
  | error f => exact .error f

theorem Matches.map_left {Q : γ → β → Prop} {g : α → γ} {r : Except (Fault K) α}
    {r' : Except (Fault K) β} (h : Matches R r r') (hg : ∀ a b, R a b → Q (g a) b) :
    Matches Q (r.map g) r' := by
  cases h with
  | ok related => exact .ok (hg _ _ related)
  | error f => exact .error f

theorem Matches.of_map {g : α → γ} {g' : β → δ} {r : Except (Fault K) α}
    {r' : Except (Fault K) β} (h : Matches Q (r.map g) (r'.map g')) :
    Matches (fun a b => Q (g a) (g' b)) r r' := by
  cases r with
  | error f =>
    cases r' with
    | error f' => cases h; exact .error f
    | ok b => cases h
  | ok a =>
    cases r' with
    | error f' => cases h
    | ok b =>
      cases h with
      | ok related => exact .ok related

/-- From related settings the two actions come back alike and leave related settings. -/
def Agree (S : Setting K σ → Setting K τ → Prop) (R : α → β → Prop) (act : Act K σ α)
    (act' : Act K τ β) : Prop :=
  ∀ ⦃w w'⦄, S w w' →
    Matches R (result act w).1 (result act' w').1 ∧ S (result act w).2 (result act' w').2

namespace Agree

theorem pure {a : α} {b : β} (h : R a b) :
    Agree S R (Pure.pure a : Act K σ α) (Pure.pure b : Act K τ β) := by
  intro w w' hw
  exact ⟨.ok h, hw⟩

theorem throw (f : Fault K) :
    Agree S R (MonadExcept.throw f : Act K σ α) (MonadExcept.throw f : Act K τ β) := by
  intro w w' hw
  exact ⟨.error f, hw⟩

/-- The second actions begin where the first ones left off, unless those failed. -/
theorem bind {next : α → Act K σ γ} {next' : β → Act K τ δ} (h : Agree S R act act')
    (hnext : ∀ a b, R a b → Agree S Q (next a) (next' b)) :
    Agree S Q (act >>= next) (act' >>= next') := by
  intro w w' hw
  obtain ⟨hmatch, hsettings⟩ := h hw
  rw [result_bind, result_bind]
  rcases hr : result act w with ⟨r, v⟩
  rcases hr' : result act' w' with ⟨r', v'⟩
  rw [hr, hr'] at hmatch hsettings
  cases hmatch with
  | ok related => exact hnext _ _ related hsettings
  | error f => exact ⟨.error f, hsettings⟩

/-- The same values lead on alike. -/
theorem bind_eq {act' : Act K τ α} {next : α → Act K σ γ} {next' : α → Act K τ δ}
    (h : Agree S Eq act act') (hnext : ∀ a, Agree S Q (next a) (next' a)) :
    Agree S Q (act >>= next) (act' >>= next') := by
  refine h.bind ?_
  rintro a _ rfl
  exact hnext a

/-- Results that are there already. -/
theorem ofMatches {r : Except (Fault K) α} {r' : Except (Fault K) β} (h : Matches R r r') :
    Agree S R (Act.ofExcept r : Act K σ α) (Act.ofExcept r' : Act K τ β) := by
  cases h with
  | ok related => exact .pure related
  | error f => exact .throw f

/-- A result that is there already leads on alike. -/
theorem ofExcept (r : Except (Fault K) α) :
    Agree S (fun a b => a = b ∧ r = .ok a) (Act.ofExcept r : Act K σ α)
      (Act.ofExcept r : Act K τ α) := by
  cases r with
  | error f => exact .throw f
  | ok a => exact .pure ⟨rfl, rfl⟩

/-- Functions of the values leave the settings alone. -/
theorem map {g : α → γ} {g' : β → δ} (h : Agree S R act act')
    (hg : ∀ a b, R a b → Q (g a) (g' b)) : Agree S Q (g <$> act) (g' <$> act') := by
  intro w w' hw
  obtain ⟨hmatch, hsettings⟩ := h hw
  rw [result_map, result_map]
  exact ⟨hmatch.map hg, hsettings⟩

/-- What two actions agree on under a function of their values, they agree on without it. -/
theorem of_map {g : α → γ} {g' : β → δ} (h : Agree S Q (g <$> act) (g' <$> act')) :
    Agree S (fun a b => Q (g a) (g' b)) act act' := by
  intro w w' hw
  obtain ⟨hmatch, hsettings⟩ := h hw
  rw [result_map] at hmatch hsettings
  rw [result_map] at hmatch hsettings
  exact ⟨hmatch.of_map, hsettings⟩

theorem mono {Q : α → β → Prop} (h : Agree S R act act') (hrq : ∀ a b, R a b → Q a b) :
    Agree S Q act act' := by
  intro w w' hw
  exact ⟨(h hw).1.mono hrq, (h hw).2⟩

/-! ## 2. Settings that differ in the log -/

variable {T : σ → τ → Prop}

theorem own : Agree (Setting.Over T) T (Act.own : Act K σ σ) (Act.own : Act K τ τ) := by
  intro w w' hw
  exact ⟨.ok hw.own, hw⟩

theorem become {s : σ} {s' : τ} (h : T s s') :
    Agree (Setting.Over T) Eq (Act.become s : Act K σ Unit) (Act.become s' : Act K τ Unit) := by
  intro w w' hw
  exact ⟨.ok rfl, ⟨h, hw.rng⟩⟩

theorem change {f : σ → σ} {f' : τ → τ} (h : ∀ s s', T s s' → T (f s) (f' s')) :
    Agree (Setting.Over T) Eq (Act.change f : Act K σ Unit) (Act.change f' : Act K τ Unit) := by
  intro w w' hw
  exact ⟨.ok rfl, ⟨h _ _ hw.own, hw.rng⟩⟩

theorem draw (d : Draw α) :
    Agree (Setting.Over T) Eq (Act.draw d : Act K σ α) (Act.draw d : Act K τ α) := by
  rintro ⟨s, g, lines⟩ ⟨s', g', lines'⟩ ⟨hown, hrng⟩
  cases hrng
  rw [result_draw, result_draw]
  exact ⟨.ok rfl, ⟨hown, rfl⟩⟩

theorem sample (d : Sampling K α) :
    Agree (Setting.Over T) Eq (Act.sample d : Act K σ α) (Act.sample d : Act K τ α) := by
  rintro ⟨s, g, lines⟩ ⟨s', g', lines'⟩ ⟨hown, hrng⟩
  cases hrng
  rw [result_sample, result_sample]
  exact ⟨Matches.refl _, ⟨hown, rfl⟩⟩

/-- Whatever is said makes no difference. -/
theorem sayIf (verbose verbose' : Bool) (line line' : Line K) :
    Agree (Setting.Over T) Eq (Act.sayIf verbose line : Act K σ Unit)
      (Act.sayIf verbose' line' : Act K τ Unit) := by
  intro w w' hw
  rw [result_sayIf, result_sayIf]
  exact ⟨.ok rfl, ⟨hw.own, hw.rng⟩⟩

/-- Actions of parts that agree are actions of the wholes that agree. -/
theorem on {ρ ρ' : Type} {U : ρ → ρ' → Prop} {part : ρ → σ} {part' : ρ' → τ}
    {restore : σ → ρ → ρ} {restore' : τ → ρ' → ρ'} (h : Agree (Setting.Over T) R act act')
    (hpart : ∀ s s', U s s' → T (part s) (part' s'))
    (hrestore : ∀ t t' s s', U s s' → T t t' → U (restore t s) (restore' t' s')) :
    Agree (Setting.Over U) R (act.on part restore) (act'.on part' restore') := by
  intro w w' hw
  have hparts : Setting.Over T (⟨part w.own, w.rng, w.lines⟩ : Setting K σ)
      (⟨part' w'.own, w'.rng, w'.lines⟩ : Setting K τ) := ⟨hpart _ _ hw.own, hw.rng⟩
  obtain ⟨hmatch, hsettings⟩ := h hparts
  rw [result_on, result_on]
  exact ⟨hmatch, ⟨hrestore _ _ _ _ hw.own hsettings.own, hsettings.rng⟩⟩

end Agree

/-- Nothing the action does depends on the lines that were said. -/
def Deaf (act : Act K σ α) : Prop := Agree (Setting.Over Eq) Eq act act

/-! ## 3. Settings that differ in the progress that was said -/

/-- The action says nothing. -/
def Quiet (act : Act K σ α) : Prop := ∀ w, (result act w).2.lines = w.lines

/-- What the action does, says of warnings included, does not depend on the progress that was
said. -/
def Unswayed (act : Act K σ α) : Prop := Agree (Setting.Aside Eq) Eq act act

namespace Agree

variable {T : σ → τ → Prop}

/-- Where nothing is said, the warnings stay the same. -/
theorem aside (h : Agree (Setting.Over T) R act act') (hquiet : Quiet act)
    (hquiet' : Quiet act') : Agree (Setting.Aside T) R act act' := by
  intro w w' hw
  obtain ⟨hmatch, hsettings⟩ := h hw.toOver
  exact ⟨hmatch, hsettings, by rw [hquiet w, hquiet' w']; exact hw.warnings⟩

theorem own_aside : Agree (Setting.Aside T) T (Act.own : Act K σ σ) (Act.own : Act K τ τ) :=
  own.aside (fun _ => rfl) fun _ => rfl

theorem become_aside {s : σ} {s' : τ} (h : T s s') :
    Agree (Setting.Aside T) Eq (Act.become s : Act K σ Unit) (Act.become s' : Act K τ Unit) :=
  (become h).aside (fun _ => rfl) fun _ => rfl

theorem change_aside {f : σ → σ} {f' : τ → τ} (h : ∀ s s', T s s' → T (f s) (f' s')) :
    Agree (Setting.Aside T) Eq (Act.change f : Act K σ Unit) (Act.change f' : Act K τ Unit) :=
  (change h).aside (fun _ => rfl) fun _ => rfl

theorem draw_aside (d : Draw α) :
    Agree (Setting.Aside T) Eq (Act.draw d : Act K σ α) (Act.draw d : Act K τ α) :=
  (draw d).aside (fun _ => rfl) fun _ => rfl

theorem sample_aside (d : Sampling K α) :
    Agree (Setting.Aside T) Eq (Act.sample d : Act K σ α) (Act.sample d : Act K τ α) :=
  (sample d).aside (fun _ => rfl) fun _ => rfl

/-- Lines with the same warnings may be said on the two sides, or none on one of them. -/
theorem sayIf_of_warnings {verbose verbose' : Bool} {line line' : Line K}
    (h : warnings (if verbose then #[line] else #[])
      = warnings (if verbose' then #[line'] else #[])) :
    Agree (Setting.Aside T) Eq (Act.sayIf verbose line : Act K σ Unit)
      (Act.sayIf verbose' line' : Act K τ Unit) := by
  intro w w' hw
  obtain ⟨hmatch, hsettings⟩ := sayIf verbose verbose' line line' hw.toOver
  refine ⟨hmatch, hsettings, ?_⟩
  have hsaid : ∀ lines said : Array (Line K),
      warnings (lines ++ said) = warnings lines ++ warnings said := by
    intro lines said
    rw [warnings, Array.toList_append, List.filter_append]
    rfl
  rw [result_sayIf, result_sayIf]
  show warnings (w.lines ++ _) = warnings (w'.lines ++ _)
  rw [hsaid, hsaid, hw.warnings, h]

/-- Progress may be said or not. -/
theorem sayIf_progress (verbose verbose' : Bool) {line line' : Line K}
    (h : line.channel = .progress) (h' : line'.channel = .progress) :
    Agree (Setting.Aside T) Eq (Act.sayIf verbose line : Act K σ Unit)
      (Act.sayIf verbose' line' : Act K τ Unit) := by
  have hnone : ∀ {l : Line K} (v : Bool), l.channel = .progress →
      warnings (if v then #[l] else #[]) = [] := by
    intro l v hl
    cases v with
    | false => rfl
    | true => simp [warnings, hl]
  exact sayIf_of_warnings ((hnone verbose h).trans (hnone verbose' h').symm)

/-- Actions of parts that agree are actions of the wholes that agree. -/
theorem on_aside {ρ ρ' : Type} {U : ρ → ρ' → Prop} {part : ρ → σ} {part' : ρ' → τ}
    {restore : σ → ρ → ρ} {restore' : τ → ρ' → ρ'} (h : Agree (Setting.Aside T) R act act')
    (hpart : ∀ s s', U s s' → T (part s) (part' s'))
    (hrestore : ∀ t t' s s', U s s' → T t t' → U (restore t s) (restore' t' s')) :
    Agree (Setting.Aside U) R (act.on part restore) (act'.on part' restore') := by
  intro w w' hw
  have hparts : Setting.Aside T (⟨part w.own, w.rng, w.lines⟩ : Setting K σ)
      (⟨part' w'.own, w'.rng, w'.lines⟩ : Setting K τ) :=
    ⟨⟨hpart _ _ hw.own, hw.rng⟩, hw.warnings⟩
  obtain ⟨hmatch, hsettings⟩ := h hparts
  rw [result_on, result_on]
  exact ⟨hmatch, ⟨hrestore _ _ _ _ hw.own hsettings.own, hsettings.rng⟩, hsettings.warnings⟩

end Agree

end Act

end LargeNeighbourhood
