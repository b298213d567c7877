import Mathlib

/-!
Regions of memory and families of regions that do not overlap.
-/

namespace RustyOs.Regions

/-- The addresses from `start`, `size` of them. -/
structure Region where
  start : ℕ
  size : ℕ
  deriving DecidableEq, Repr

namespace Region

variable {r r' s : Region}

def stop (r : Region) : ℕ := r.start + r.size

def bytes (r : Region) : Set ℕ := Set.Ico r.start r.stop

def Inside (r s : Region) : Prop := s.start ≤ r.start ∧ r.stop ≤ s.stop

lemma disjoint_iff : Disjoint r.bytes s.bytes ↔ min r.stop s.stop ≤ max r.start s.start :=
  Set.Ico_disjoint_Ico

lemma Inside.trans (h : r.Inside r') (h' : r'.Inside s) : r.Inside s :=
  ⟨h'.1.trans h.1, h.2.trans h'.2⟩

lemma Inside.bytes_subset (h : r.Inside s) : r.bytes ⊆ s.bytes := Set.Ico_subset_Ico h.1 h.2

lemma disjoint_mono (h : Disjoint r.bytes s.bytes) (hr : r'.Inside r) :
    Disjoint r'.bytes s.bytes := h.mono_left hr.bytes_subset

lemma start_ne (h : Disjoint r.bytes s.bytes) (hr : 0 < r.size) (hs : 0 < s.size) :
    r.start ≠ s.start := by
  rw [disjoint_iff] at h
  unfold stop at h
  omega

end Region

/-- No two regions of the list overlap. -/
def Separate (l : List Region) : Prop := l.Pairwise fun r s => Disjoint r.bytes s.bytes

variable {r r₁ r₂ : Region} {l l' : List Region}

lemma separate_cons : Separate (r :: l) ↔ (∀ s ∈ l, Disjoint r.bytes s.bytes) ∧ Separate l :=
  List.pairwise_cons

lemma Separate.perm (h : Separate l) (hp : l.Perm l') : Separate l' :=
  List.Pairwise.perm h hp fun h => h.symm

lemma Separate.shrink (h : Separate (r :: l)) (h₁ : r₁.Inside r) : Separate (r₁ :: l) := by
  rw [separate_cons] at h ⊢
  exact ⟨fun s hs => Region.disjoint_mono (h.1 s hs) h₁, h.2⟩

lemma Separate.split (h : Separate (r :: l)) (h₁ : r₁.Inside r) (h₂ : r₂.Inside r)
    (h₁₂ : r₁.stop ≤ r₂.start) : Separate (r₁ :: r₂ :: l) := by
  have hd : Disjoint r₁.bytes r₂.bytes := by
    rw [Region.disjoint_iff]
    exact (min_le_left _ _).trans (h₁₂.trans (le_max_right _ _))
  rw [separate_cons]
  refine ⟨fun s hs => ?_, h.shrink h₂⟩
  rcases List.mem_cons.mp hs with rfl | hs
  · exact hd
  · exact (separate_cons.mp (h.shrink h₁)).1 s hs

lemma Separate.map_inside {α : Type} {f g : α → Region} {l : List α}
    (h : Separate (l.map f)) (hg : ∀ a, (g a).Inside (f a)) : Separate (l.map g) := by
  unfold Separate at h ⊢
  rw [List.pairwise_map] at h ⊢
  exact h.imp fun {a b} hab => hab.mono (hg a).bytes_subset (hg b).bytes_subset

end RustyOs.Regions
