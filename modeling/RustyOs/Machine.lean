import Mathlib

/-!
Runs of a machine that takes events, and what holds in all of them.

A condition on the events a run may take, judged in the state in which each is taken, stands
for the assumptions under which the machine is used.
-/

namespace RustyOs.Machine

variable {σ ε : Type}

/-- The states the machine comes to from `s₀` by events that meet `ok`. -/
inductive Reach (next : σ → ε → Option σ) (ok : σ → ε → Prop) (s₀ : σ) : σ → Prop
  | start : Reach next ok s₀ s₀
  | step {s s' : σ} {e : ε} (h : Reach next ok s₀ s) (hok : ok s e) (hs : next s e = some s') :
      Reach next ok s₀ s'

variable {next : σ → ε → Option σ} {ok ok' : σ → ε → Prop} {s₀ s : σ}

/-- **The invariant rule.** -/
theorem Reach.inv {I : σ → Prop} (h : Reach next ok s₀ s) (hi : I s₀)
    (hstep : ∀ s e s', I s → ok s e → next s e = some s' → I s') : I s := by
  induction h with
  | start => exact hi
  | step _ hok hs ih => exact hstep _ _ _ ih hok hs

lemma Reach.mono (h : Reach next ok s₀ s) (himp : ∀ s e, ok s e → ok' s e) :
    Reach next ok' s₀ s := by
  induction h with
  | start => exact .start
  | step _ hok hs ih => exact .step ih (himp _ _ hok) hs

lemma Reach.trans {s' : σ} (h : Reach next ok s₀ s) (h' : Reach next ok s s') :
    Reach next ok s₀ s' := by
  induction h' with
  | start => exact h
  | step _ hok hs ih => exact .step ih hok hs

lemma Reach.of_foldlM {es : List ε} (hok : ∀ s e, ok s e) (h : es.foldlM next s₀ = some s) :
    Reach next ok s₀ s := by
  induction es generalizing s₀ with
  | nil =>
    obtain rfl := Option.some.inj h
    exact .start
  | cons e es ih =>
    obtain ⟨s₁, hs₁, h⟩ := Option.bind_eq_some_iff.mp h
    exact (Reach.start.step (hok _ e) hs₁).trans (ih h)

/-! ### Simulation -/

section simulation

variable {τ η : Type} {next' : τ → η → Option τ} {t₀ t t' : τ}

/-- The machine takes the event, if it sees one. -/
def Follows (next : τ → η → Option τ) (ok : τ → η → Prop) (t : τ) : Option η → τ → Prop
  | some e, t' => ok t e ∧ next t e = some t'
  | none, t' => t' = t

lemma Follows.inv {okt : τ → η → Prop} {I : τ → Prop} {o : Option η}
    (h : Follows next' okt t o t') (hi : I t)
    (hstep : ∀ e, okt t e → next' t e = some t' → I t') : I t' := by
  cases o with
  | some e => exact hstep e h.1 h.2
  | none => exact h ▸ hi

/-- **The simulation rule.** If the second machine can follow every step of the first, with the
events it sees, every run of the first is matched by a run of the second. -/
theorem Reach.simulates {okt : τ → η → Prop} (h : Reach next ok s₀ s) (R : σ → τ → Prop)
    (view : ε → Option η) (h₀ : R s₀ t₀)
    (hstep : ∀ s t e s', R s t → ok s e → next s e = some s' →
      ∃ t', Follows next' okt t (view e) t' ∧ R s' t') :
    ∃ t, Reach next' okt t₀ t ∧ R s t := by
  induction h with
  | start => exact ⟨t₀, .start, h₀⟩
  | step _ hok hs ih =>
    obtain ⟨t, hr, hR⟩ := ih
    obtain ⟨t', hf, hR'⟩ := hstep _ t _ _ hR hok hs
    exact ⟨t', hf.inv hr fun _ hok' ht => hr.step hok' ht, hR'⟩

end simulation

/-! ### Progress -/

/-- The runs from `s`, with the number of events that count as work. -/
inductive Steps (next : σ → ε → Option σ) (ok : σ → ε → Prop) (work : ε → Bool) (s : σ) :
    ℕ → σ → Prop
  | start : Steps next ok work s 0 s
  | step {n : ℕ} {s' s'' : σ} {e : ε} (h : Steps next ok work s n s') (hok : ok s' e)
      (hs : next s' e = some s'') : Steps next ok work s (n + (work e).toNat) s''

variable {work : ε → Bool} {s' : σ} {n : ℕ}

lemma Steps.reach (h : Steps next ok work s n s') : Reach next ok s s' := by
  induction h with
  | start => exact .start
  | step _ hok hs ih => exact .step ih hok hs

/-- **The variant rule.** If work brings the variant down and nothing else brings it up, a run
with more work than the variant allows has come to the goal. -/
theorem Steps.variant {I G : σ → Prop} {μ : σ → ℕ} (h : Steps next ok work s n s') (hi : I s)
    (hinv : ∀ s e s', I s → ok s e → next s e = some s' → I s')
    (hgoal : ∀ s e s', I s → G s → ok s e → next s e = some s' → G s')
    (hdec : ∀ s e s', I s → ¬ G s → ok s e → next s e = some s' →
      G s' ∨ μ s' + (work e).toNat ≤ μ s) :
    I s' ∧ (G s' ∨ μ s' + n ≤ μ s) := by
  induction h with
  | start => exact ⟨hi, .inr (le_refl _)⟩
  | @step n s' s'' e _ hok hs ih =>
    obtain ⟨hi', hcase⟩ := ih
    refine ⟨hinv _ _ _ hi' hok hs, ?_⟩
    by_cases hg : G s'
    · exact .inl (hgoal _ _ _ hi' hg hok hs)
    · have hle := hcase.resolve_left hg
      rcases hdec _ _ _ hi' hg hok hs with hg' | hlt
      · exact .inl hg'
      · exact .inr (by omega)

/-- If a step that brings the variant down can always be taken, the goal can be reached. -/
theorem exists_reach_goal {I G : σ → Prop} (μ : σ → ℕ)
    (hinv : ∀ s e s', I s → ok s e → next s e = some s' → I s')
    (hdec : ∀ s, I s → ¬ G s → ∃ e s', ok s e ∧ next s e = some s' ∧ (G s' ∨ μ s' < μ s))
    (hi : I s) : ∃ s', Reach next ok s s' ∧ G s' := by
  induction hm : μ s using Nat.strong_induction_on generalizing s with
  | _ m ih =>
    by_cases hg : G s
    · exact ⟨s, .start, hg⟩
    · obtain ⟨e, s₁, hok, hs, hg₁ | hlt⟩ := hdec s hi hg
      · exact ⟨s₁, .step .start hok hs, hg₁⟩
      obtain ⟨s', hr, hg'⟩ := ih (μ s₁) (hm ▸ hlt) (hinv _ _ _ hi hok hs) rfl
      exact ⟨s', (Reach.step .start hok hs).trans hr, hg'⟩

end RustyOs.Machine
