import RustyOs.BlockProg

/-!
Rely and guarantee for two programs over one store of blocks.

While a program waits, the other one changes the store. A discipline says, for every place
where a program can wait, what it may rely on meanwhile and what its next transfer may change;
a ghost value records what the program has made its own. Programs that obey a discipline are
put together one transfer at a time, and two of them can run in turns, as long as they never
stand at two places that the discipline does not allow together.
-/

namespace RustyOs.RelyGuarantee

open RustyOs.BlockProg RustyOs.BlockProg.Prog

/-- Rules for programs that wait at places `S` and own ghost values `Γ`; the place `none` is the
end of a program. -/
structure Discipline (S A B Γ : Type) where
  /-- What holds of the owner of `g` while it stands at a place. -/
  inv : Option S → Γ → (A → B) → Prop
  /-- What the others may do meanwhile. -/
  rely : Option S → Γ → (A → B) → (A → B) → Prop
  /-- What a transfer may do. -/
  guar : S → Γ → (A → B) → Γ → (A → B) → Prop
  /-- Two owners do not own the same. -/
  apart : Γ → Γ → Prop
  /-- The two places may be held at the same time. -/
  allowed : Option S → Option S → Prop
  rely_refl : ∀ t g d, rely t g d d
  rely_trans : ∀ {t g d₁ d₂ d₃}, rely t g d₁ d₂ → rely t g d₂ d₃ → rely t g d₁ d₃
  inv_stable : ∀ {t g d d'}, inv t g d → rely t g d d' → inv t g d'
  apart_symm : ∀ {g h}, apart g h → apart h g
  allowed_symm : ∀ {s t}, allowed s t → allowed t s
  /-- A transfer keeps to what an owner at an allowed place relies on. -/
  meets : ∀ {s t t' g g' h d d'}, allowed (some s) t → allowed t' t → apart g h →
    inv (some s) g d → inv t' g' d' → inv t h d → guar s g d g' d' →
    rely t h d d' ∧ apart g' h

variable {S A B E Γ α β : Type} [DecidableEq A] {D : Discipline S A B Γ}

/-- The program keeps the discipline whatever the others do within it, and ends in `Q` if it
returns. -/
def Obeys (D : Discipline S A B Γ) (Q : Γ → α → (A → B) → Prop) :
    Prog S A B E α → Γ → (A → B) → Prop
  | .ret a, g, d => Q g a d
  | .raise _, g, d => D.inv none g d
  | .abort, g, d => D.inv none g d
  | .read s a k, g, d => D.inv (some s) g d ∧ ∀ d', D.rely (some s) g d d' →
      ∃ g', D.guar s g d' g' d' ∧ Obeys D Q (k (d' a)) g' d'
  | .write s a b k, g, d => D.inv (some s) g d ∧ ∀ d', D.rely (some s) g d d' →
      ∃ g', D.guar s g d' g' (Function.update d' a b) ∧
        Obeys D Q k g' (Function.update d' a b)

/-- **The rule for programs in sequence.** -/
theorem Obeys.bind {Q : Γ → α → (A → B) → Prop} {Q' : Γ → β → (A → B) → Prop}
    {p : Prog S A B E α} {k : α → Prog S A B E β} {g : Γ} {d : A → B} (h : Obeys D Q p g d)
    (hk : ∀ g' a d', Q g' a d' → Obeys D Q' (k a) g' d') : Obeys D Q' (p >>= k) g d := by
  induction p generalizing g d with
  | ret a => exact hk g a d h
  | raise e => exact h
  | abort => exact h
  | read s a f ih =>
    refine ⟨h.1, fun d' hr => ?_⟩
    obtain ⟨g', hg, hf⟩ := h.2 d' hr
    exact ⟨g', hg, ih (d' a) hf⟩
  | write s a b f ih =>
    refine ⟨h.1, fun d' hr => ?_⟩
    obtain ⟨g', hg, hf⟩ := h.2 d' hr
    exact ⟨g', hg, ih hf⟩

lemma Obeys.mono {Q Q' : Γ → α → (A → B) → Prop} {p : Prog S A B E α} {g : Γ} {d : A → B}
    (h : Obeys D Q p g d) (hQ : ∀ g' a d', Q g' a d' → Q' g' a d') : Obeys D Q' p g d := by
  rw [← bind_ret p]
  exact h.bind hQ

/-- What a program has reached at its end, and keeps while the other one goes on. -/
structure Lasting (D : Discipline S A B Γ) (Q : Γ → α → (A → B) → Prop) : Prop where
  inv : ∀ {g a d}, Q g a d → D.inv none g d
  stable : ∀ {g a d d'}, Q g a d → D.rely none g d d' → Q g a d'

section pair

variable {Q Q₁ Q₂ : Γ → α → (A → B) → Prop} {p p' : Prog S A B E α} {g : Γ} {d d' : A → B}

lemma Obeys.inv (hQ : Lasting D Q) (h : Obeys D Q p g d) : D.inv p.site? g d := by
  cases p with
  | ret a => exact hQ.inv h
  | raise e => exact h
  | abort => exact h
  | read s a k => exact h.1
  | write s a b k => exact h.1

lemma Obeys.stable (hQ : Lasting D Q) (h : Obeys D Q p g d) (hr : D.rely p.site? g d d') :
    Obeys D Q p g d' := by
  cases p with
  | ret a => exact hQ.stable h hr
  | raise e => exact D.inv_stable h hr
  | abort => exact D.inv_stable h hr
  | read s a k => exact ⟨D.inv_stable h.1 hr, fun d'' hr' => h.2 d'' (D.rely_trans hr hr')⟩
  | write s a b k => exact ⟨D.inv_stable h.1 hr, fun d'' hr' => h.2 d'' (D.rely_trans hr hr')⟩

lemma Obeys.step (h : Obeys D Q p g d) (hs : p.step d = some (p', d')) :
    ∃ s g', p.site? = some s ∧ D.guar s g d g' d' ∧ Obeys D Q p' g' d' := by
  cases p with
  | ret a => cases hs
  | raise e => cases hs
  | abort => cases hs
  | read s a k =>
    obtain ⟨rfl, rfl⟩ := Prod.mk.inj (Option.some_inj.mp hs)
    obtain ⟨g', hg, hk⟩ := h.2 d (D.rely_refl _ g d)
    exact ⟨s, g', rfl, hg, hk⟩
  | write s a b k =>
    obtain ⟨rfl, rfl⟩ := Prod.mk.inj (Option.some_inj.mp hs)
    obtain ⟨g', hg, hk⟩ := h.2 d (D.rely_refl _ g d)
    exact ⟨s, g', rfl, hg, hk⟩

lemma Obeys.step_other (hQ₁ : Lasting D Q₁) (hQ₂ : Lasting D Q₂) {q : Prog S A B E α} {h : Γ}
    (hp : Obeys D Q₁ p g d) (hq : Obeys D Q₂ q h d) (hgh : D.apart g h)
    (hs : p.step d = some (p', d')) (ha : D.allowed p.site? q.site?)
    (ha' : D.allowed p'.site? q.site?) :
    ∃ g', D.apart g' h ∧ Obeys D Q₁ p' g' d' ∧ Obeys D Q₂ q h d' := by
  obtain ⟨s, g', hsite, hg, hp'⟩ := hp.step hs
  have hinv := hp.inv hQ₁
  rw [hsite] at ha hinv
  obtain ⟨hrely, hapart⟩ := D.meets ha ha' hgh hinv (hp'.inv hQ₁) (hq.inv hQ₂) hg
  exact ⟨g', hapart, hp', hq.stable hQ₂ hrely⟩

/-- **Two programs that obey the discipline** do so along every schedule that keeps them at
places that are allowed together. -/
theorem Obeys.run {P : Pair S A B E α → Prop} [DecidablePred P]
    (hP : ∀ c, P c → D.allowed c.fst.site? c.snd.site?) {c c' : Pair S A B E α} {ws : List Bool}
    {g₁ g₂ : Γ} (hQ₁ : Lasting D Q₁) (hQ₂ : Lasting D Q₂) (h₁ : Obeys D Q₁ c.fst g₁ c.store)
    (h₂ : Obeys D Q₂ c.snd g₂ c.store) (hap : D.apart g₁ g₂) (hrun : c.run P ws = some c') :
    ∃ g₁' g₂', D.apart g₁' g₂' ∧ Obeys D Q₁ c'.fst g₁' c'.store ∧
      Obeys D Q₂ c'.snd g₂' c'.store := by
  refine Pair.run_inv (I := fun c => ∃ g₁ g₂, D.apart g₁ g₂ ∧ Obeys D Q₁ c.fst g₁ c.store ∧
    Obeys D Q₂ c.snd g₂ c.store) ?_ hrun ⟨g₁, g₂, hap, h₁, h₂⟩
  rintro c w c' hc ⟨g₁, g₂, hap, h₁, h₂⟩ hstep hc'
  have ha := hP c hc
  have ha' := hP c' hc'
  cases w with
  | false =>
    obtain ⟨⟨p', d'⟩, hs, rfl⟩ := Option.map_eq_some_iff.mp hstep
    obtain ⟨g', hap', h₁', h₂'⟩ := h₁.step_other hQ₁ hQ₂ h₂ hap hs ha ha'
    exact ⟨g', g₂, hap', h₁', h₂'⟩
  | true =>
    obtain ⟨⟨p', d'⟩, hs, rfl⟩ := Option.map_eq_some_iff.mp hstep
    obtain ⟨g', hap', h₂', h₁'⟩ := h₂.step_other hQ₂ hQ₁ h₁ (D.apart_symm hap) hs
      (D.allowed_symm ha) (D.allowed_symm ha')
    exact ⟨g₁, g', D.apart_symm hap', h₁', h₂'⟩

end pair

end RustyOs.RelyGuarantee
