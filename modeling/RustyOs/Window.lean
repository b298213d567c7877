import Mathlib

/-!
A window of fixed height on the end of a list that grows, and loops over a range of indices.

The window is a function on its places, the list is what it would show without a limit. Adding
to the list moves the rows of the window up by one; replacing the end of the list replaces the
last row of the window.
-/

namespace RustyOs.Window

/-- **The rule of a counted loop.** If each iteration leads from one description of the state to
the next, the loop leads from the first to the last. -/
theorem foldlM_range' {σ : Type} {f : σ → ℕ → Option σ} {a n : ℕ} (g : ℕ → σ)
    (hstep : ∀ i < n, f (g i) (a + i) = some (g (i + 1))) :
    (List.range' a n).foldlM f (g 0) = some (g n) := by
  induction n with
  | zero => rfl
  | succ n ih =>
    have hrun := ih fun i hi => hstep i (hi.trans n.lt_succ_self)
    rw [List.range'_1_concat, List.foldlM_append, hrun]
    simp only [Option.bind_eq_bind, Option.bind_some, List.foldlM_cons, List.foldlM_nil,
      hstep n n.lt_succ_self]
    rfl

variable {α : Type} {n : ℕ} {f g : Fin (n + 1) → α} {l : List α} {x y : α}

/-- The window shows the end of the list. -/
def Shows (f : Fin n → α) (l : List α) : Prop := List.ofFn f = l.rtake n

lemma tail_rtake (h : n < l.length) : (l.rtake (n + 1)).tail = l.rtake n := by
  rw [List.rtake, List.rtake, List.tail_drop]
  congr 1
  omega

lemma Shows.lt_length (h : Shows f l) : n < l.length := by
  have hlen := congrArg List.length h
  rw [List.length_ofFn, List.rtake, List.length_drop] at hlen
  omega

lemma Shows.push (h : Shows f l) (hshift : ∀ i : Fin n, g i.castSucc = f i.succ)
    (hlast : g (Fin.last n) = x) : Shows g (l ++ [x]) := by
  have htail : (List.ofFn fun i => f i.succ) = l.rtake n := by
    rw [← tail_rtake h.lt_length, ← h, List.ofFn_succ, List.tail_cons]
  rw [Shows, List.rtake_concat_succ, ← htail, List.ofFn_succ', List.concat_eq_append, hlast]
  simp only [hshift]

lemma Shows.concat (h : Shows f (l ++ [x])) :
    (List.ofFn fun i : Fin n => f i.castSucc) = l.rtake n ∧ f (Fin.last n) = x := by
  rw [Shows, List.rtake_concat_succ, List.ofFn_succ', List.concat_eq_append] at h
  obtain ⟨hinit, hlast⟩ := List.append_inj' h rfl
  exact ⟨hinit, List.singleton_inj.mp hlast⟩

lemma Shows.replace (h : Shows f (l ++ [x])) (hsame : ∀ i : Fin n, g i.castSucc = f i.castSucc)
    (hlast : g (Fin.last n) = y) : Shows g (l ++ [y]) := by
  rw [Shows, List.rtake_concat_succ, ← h.concat.1, List.ofFn_succ', List.concat_eq_append, hlast]
  simp only [hsame]

end RustyOs.Window
