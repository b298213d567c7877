import Mathlib

/-!
A queue whose first member is polled and goes to the end until it has finished.

A poll may depend on a state that all members share and may change it, so how often a member is
polled before it finishes depends on the others. What is asked of the members is that each of
them finishes in every endless sequence of polls that keeps coming back to those that have not.
The queue polls in such a way; so it becomes empty.
-/

namespace RustyOs.Rotation

variable {τ σ : Type} (poll : τ → σ → σ × Bool)

/-- The first member is polled, and goes to the end unless it has finished. -/
def turn : List τ × σ → List τ × σ
  | ([], w) => ([], w)
  | (t :: q, w) => (if (poll t w).2 then q else q ++ [t], (poll t w).1)

/-- The state before poll `n` of a sequence of polls. -/
def stateAt (sched : ℕ → τ) (w : σ) : ℕ → σ
  | 0 => w
  | n + 1 => (poll (sched n) (stateAt sched w n)).1

/-- The member has finished in one of the first `n` polls. -/
def FinishedBy (sched : ℕ → τ) (w : σ) (t : τ) (n : ℕ) : Prop :=
  ∃ m < n, sched m = t ∧ (poll t (stateAt poll sched w m)).2 = true

/-- Only members that have not finished are polled, and each of them is polled again. -/
structure Fair (ts : List τ) (w : σ) (sched : ℕ → τ) : Prop where
  unfinished : ∀ n, sched n ∈ ts ∧ ¬ FinishedBy poll sched w (sched n) n
  again : ∀ t ∈ ts, ∀ n, ¬ FinishedBy poll sched w t n → ∃ m ≥ n, sched m = t

/-- In every fair sequence of polls, each member finishes after finitely many. -/
def Finishes (ts : List τ) (w : σ) : Prop :=
  ∀ sched, Fair poll ts w sched → ∀ t ∈ ts, ∃ n, FinishedBy poll sched w t n

variable {poll} {ts : List τ} {w : σ} {sched : ℕ → τ} {t : τ} {n : ℕ}

lemma FinishedBy.mono {m : ℕ} (h : FinishedBy poll sched w t n) (hle : n ≤ m) :
    FinishedBy poll sched w t m := by
  obtain ⟨k, hk, hrest⟩ := h
  exact ⟨k, hk.trans_le hle, hrest⟩

lemma finishedBy_succ : FinishedBy poll sched w t (n + 1) ↔
    FinishedBy poll sched w t n ∨
      (sched n = t ∧ (poll t (stateAt poll sched w n)).2 = true) := by
  constructor
  · rintro ⟨m, hm, hrest⟩
    rcases Nat.lt_succ_iff_lt_or_eq.mp hm with hlt | rfl
    · exact .inl ⟨m, hlt, hrest⟩
    · exact .inr hrest
  · rintro (h | h)
    · exact h.mono n.le_succ
    · exact ⟨n, n.lt_succ_self, h⟩

/-- **Polls that count down finish.** If there is a number that a member's own polls bring down
as long as it has not finished, and that no other poll brings up, the member finishes. -/
theorem finishes_of_rank (left : τ → σ → ℕ)
    (hself : ∀ t w, (poll t w).2 = false → left t (poll t w).1 < left t w)
    (hother : ∀ t t' w, t' ≠ t → left t' (poll t w).1 ≤ left t' w) : Finishes poll ts w := by
  intro sched hfair t ht
  by_contra hnever
  rw [not_exists] at hnever
  have hpending : ∀ n, sched n = t → (poll t (stateAt poll sched w n)).2 = false := by
    intro n hn
    rw [← Bool.not_eq_true]
    exact fun hready => hnever (n + 1) (finishedBy_succ.mpr (.inr ⟨hn, hready⟩))
  have hstep : ∀ n, left t (stateAt poll sched w (n + 1)) ≤ left t (stateAt poll sched w n) := by
    intro n
    by_cases hn : sched n = t
    · have hlt := hself t _ (hpending n hn)
      rw [stateAt, hn]
      exact hlt.le
    · exact hother _ _ _ (Ne.symm hn)
  have hanti : Antitone fun n => left t (stateAt poll sched w n) := antitone_nat_of_succ_le hstep
  -- below every value there is a smaller one, at the next poll of the member
  have hfalse : ∀ v n, left t (stateAt poll sched w n) = v → False := by
    intro v
    induction v using Nat.strong_induction_on with
    | _ v ih =>
      intro n hv
      obtain ⟨m, hm, hsched⟩ := hfair.again t ht n (hnever n)
      have hlt := hself t _ (hpending m hsched)
      refine ih (left t (stateAt poll sched w (m + 1))) ?_ (m + 1) rfl
      calc left t (stateAt poll sched w (m + 1)) < left t (stateAt poll sched w m) := by
            rw [stateAt, hsched]
            exact hlt
        _ ≤ left t (stateAt poll sched w n) := hanti hm
        _ = v := hv
  exact hfalse _ 0 rfl

/-! ### The queue as a sequence of polls -/

section endless

variable (poll) in
/-- The queue and the state before turn `n`. -/
def before (ts : List τ) (w : σ) (n : ℕ) : List τ × σ := (turn poll)^[n] (ts, w)

lemma before_succ : before poll ts w (n + 1) = turn poll (before poll ts w n) :=
  Function.iterate_succ_apply' _ _ _

lemma before_succ_of_cons {q : List τ} (h : (before poll ts w n).1 = t :: q) :
    before poll ts w (n + 1) =
      (if (poll t (before poll ts w n).2).2 then q else q ++ [t],
        (poll t (before poll ts w n).2).1) := by
  rw [before_succ, show before poll ts w n = (t :: q, (before poll ts w n).2) from
    Prod.ext h rfl]
  rfl

/-- A queue that never becomes empty has a first member before every turn. -/
def firsts (h : ∀ n, (before poll ts w n).1 ≠ []) (n : ℕ) : τ := (before poll ts w n).1.head (h n)

variable (h : ∀ n, (before poll ts w n).1 ≠ [])
include h

lemma exists_cons (n : ℕ) : ∃ q, (before poll ts w n).1 = firsts h n :: q :=
  ⟨_, (List.cons_head_tail (h n)).symm⟩

lemma stateAt_firsts (n : ℕ) : stateAt poll (firsts h) w n = (before poll ts w n).2 := by
  induction n with
  | zero => rfl
  | succ n ih =>
    obtain ⟨q, hq⟩ := exists_cons h n
    rw [stateAt, ih, before_succ_of_cons hq]

lemma mem_before (hnd : ts.Nodup) (n : ℕ) : (before poll ts w n).1.Nodup ∧
    ∀ t, t ∈ (before poll ts w n).1 ↔ t ∈ ts ∧ ¬ FinishedBy poll (firsts h) w t n := by
  induction n with
  | zero =>
    refine ⟨hnd, fun t => ⟨fun ht => ⟨ht, ?_⟩, fun ht => ht.1⟩⟩
    rintro ⟨m, hm, -⟩
    exact absurd hm (Nat.not_lt_zero m)
  | succ n ih =>
    obtain ⟨hnodup, hmem⟩ := ih
    obtain ⟨q, hq⟩ := exists_cons h n
    rw [hq] at hnodup hmem
    obtain ⟨hnot, hnodup'⟩ := List.nodup_cons.mp hnodup
    have hfin : ∀ t, FinishedBy poll (firsts h) w t (n + 1) ↔
        FinishedBy poll (firsts h) w t n ∨
          (firsts h n = t ∧ (poll t (before poll ts w n).2).2 = true) := by
      intro t
      rw [finishedBy_succ, stateAt_firsts]
    rw [before_succ_of_cons hq]
    by_cases hready : (poll (firsts h n) (before poll ts w n).2).2 = true
    · -- the first has finished and leaves
      simp only [if_pos hready]
      refine ⟨hnodup', fun t => ?_⟩
      have ht := hmem t
      rw [List.mem_cons] at ht
      rw [hfin]
      by_cases he : firsts h n = t
      · subst he
        simp only [hnot, hready, and_self, or_true, not_true, and_false]
      · rw [or_iff_right (Ne.symm he)] at ht
        simp only [he, false_and, or_false, ht]
    · simp only [if_neg hready]
      refine ⟨?_, fun t => ?_⟩
      · exact List.nodup_append_comm.mp (List.nodup_cons.mpr ⟨hnot, hnodup'⟩)
      · have hsame : FinishedBy poll (firsts h) w t (n + 1) ↔
            FinishedBy poll (firsts h) w t n := by
          rw [hfin, or_iff_left]
          rintro ⟨rfl, hr⟩
          exact hready hr
        rw [hsame, ← hmem t, List.mem_append, List.mem_singleton, List.mem_cons, or_comm]

lemma exists_first {i : ℕ} (hi : (before poll ts w n).1[i]? = some t) :
    ∃ m ≥ n, firsts h m = t := by
  induction i generalizing n with
  | zero =>
    obtain ⟨q, hq⟩ := exists_cons h n
    rw [hq, List.getElem?_cons_zero, Option.some_inj] at hi
    exact ⟨n, le_refl n, hi⟩
  | succ i ih =>
    obtain ⟨q, hq⟩ := exists_cons h n
    rw [hq, List.getElem?_cons_succ] at hi
    have hnext : (before poll ts w (n + 1)).1[i]? = some t := by
      rw [before_succ_of_cons hq]
      split_ifs
      · exact hi
      · obtain ⟨hlt, -⟩ := List.getElem?_eq_some_iff.mp hi
        rw [List.getElem?_append_left hlt, hi]
    obtain ⟨m, hm, hfirst⟩ := ih hnext
    exact ⟨m, n.le_succ.trans hm, hfirst⟩

lemma fair_firsts (hnd : ts.Nodup) : Fair poll ts w (firsts h) := by
  refine ⟨fun n => ?_, fun t ht n hn => ?_⟩
  · exact ((mem_before h hnd n).2 _).mp (List.head_mem (h n))
  · obtain ⟨i, hi⟩ := List.mem_iff_getElem?.mp (((mem_before h hnd n).2 t).mpr ⟨ht, hn⟩)
    exact exists_first h hi

end endless

lemma exists_all_finished {l : List τ} (h : ∀ t ∈ l, ∃ n, FinishedBy poll sched w t n) :
    ∃ n, ∀ t ∈ l, FinishedBy poll sched w t n := by
  induction l with
  | nil => exact ⟨0, by simp⟩
  | cons t l ih =>
    obtain ⟨⟨m, hm⟩, hl⟩ := List.forall_mem_cons.mp h
    obtain ⟨n, hn⟩ := ih hl
    exact ⟨max m n, List.forall_mem_cons.mpr
      ⟨hm.mono (le_max_left m n), fun t ht => (hn t ht).mono (le_max_right m n)⟩⟩

/-- **The queue becomes empty.** -/
theorem exists_empty (hnd : ts.Nodup) (hfin : Finishes poll ts w) :
    ∃ n, ((turn poll)^[n] (ts, w)).1 = [] := by
  by_contra hne
  have h : ∀ n, (before poll ts w n).1 ≠ [] := not_exists.mp hne
  have hfair := fair_firsts h hnd
  obtain ⟨n, hn⟩ := exists_all_finished (hfin _ hfair)
  -- the member polled next has not finished
  obtain ⟨hmem, hnot⟩ := hfair.unfinished n
  exact hnot (hn _ hmem)

end RustyOs.Rotation
