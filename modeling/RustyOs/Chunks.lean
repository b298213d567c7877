import Mathlib

/-!
Cutting a list into pieces of a fixed length, the last one possibly shorter, and getting it
back from the pieces after each has been filled up to full length.
-/

namespace RustyOs.Chunks

variable {α : Type} {n : ℕ}

/-- The pieces, at most `k` of them. -/
def chunksUpTo (n : ℕ) : ℕ → List α → List (List α)
  | 0, _ => []
  | _ + 1, [] => []
  | k + 1, a :: l => (a :: l).take n :: chunksUpTo n k ((a :: l).drop n)

/-- The pieces of length `n`; there is no cutting into pieces of length zero. -/
def chunks? (n : ℕ) (l : List α) : Option (List (List α)) :=
  if n = 0 then none else some (chunksUpTo n l.length l)

lemma length_chunksUpTo_mul {k m : ℕ} {l : List α} (hl : l.length ≤ m * n) :
    (chunksUpTo n k l).length ≤ m := by
  induction k generalizing l m with
  | zero => simp [chunksUpTo]
  | succ k ih =>
    cases l with
    | nil => simp [chunksUpTo]
    | cons a l =>
      cases m with
      | zero => simp at hl
      | succ m =>
        have hd : ((a :: l).drop n).length ≤ m * n := by
          rw [Nat.succ_mul] at hl
          simp only [List.length_drop]; omega
        have := ih hd
        simp only [chunksUpTo, List.length_cons]; omega

lemma chunksUpTo_ne_nil {l : List α} (h : l ≠ []) : chunksUpTo n l.length l ≠ [] := by
  cases l with
  | nil => exact absurd rfl h
  | cons a l => simp [chunksUpTo]

lemma length_chunksUpTo {k : ℕ} {l : List α} (hk : l.length ≤ k) (hn : 0 < n) :
    (chunksUpTo n k l).length = (l.length + n - 1) / n := by
  induction k generalizing l with
  | zero =>
    rw [Nat.le_zero.mp hk, Nat.zero_add, Nat.div_eq_of_lt (by omega)]
    rfl
  | succ k ih =>
    cases l with
    | nil =>
      rw [List.length_nil, Nat.zero_add, Nat.div_eq_of_lt (by omega)]
      rfl
    | cons a l =>
      have hlen : ((a :: l).drop n).length ≤ k := by
        simp only [List.length_drop, List.length_cons] at hk ⊢; omega
      rw [chunksUpTo, List.length_cons, ih hlen, List.length_drop]
      rcases Nat.lt_or_ge (a :: l).length n with hlt | hge
      · rw [Nat.sub_eq_zero_of_le hlt.le, Nat.zero_add, Nat.div_eq_of_lt (by omega),
          Nat.div_eq_of_lt_le] <;> simp only [List.length_cons] at hlt ⊢ <;> omega
      · rw [← Nat.add_div_right _ hn]
        congr 1
        omega

lemma getElem?_chunksUpTo {k i : ℕ} {l : List α} (hk : l.length ≤ k) (hn : 0 < n)
    (hi : i * n < l.length) : (chunksUpTo n k l)[i]? = some ((l.drop (i * n)).take n) := by
  induction k generalizing l i with
  | zero => omega
  | succ k ih =>
    cases l with
    | nil => simp at hi
    | cons a l =>
      cases i with
      | zero => simp [chunksUpTo]
      | succ i =>
        have hlen : ((a :: l).drop n).length ≤ k := by
          simp only [List.length_drop, List.length_cons] at hk ⊢; omega
        have hlt : i * n < ((a :: l).drop n).length := by
          rw [Nat.succ_mul] at hi
          rw [List.length_drop]; omega
        rw [chunksUpTo, List.getElem?_cons_succ, ih hlen hlt, List.drop_drop, Nat.succ_mul,
          Nat.add_comm n]

/-! ### Parts of one length, one behind the other -/

section parts

variable {β : Type} {f : α → List β}

lemma length_flatMap_parts {l : List α} (h : ∀ a ∈ l, (f a).length = n) :
    (l.flatMap f).length = n * l.length := by
  induction l with
  | nil => rfl
  | cons a l ih =>
    rw [List.flatMap_cons, List.length_append, h a List.mem_cons_self,
      ih fun b hb => h b (List.mem_cons_of_mem a hb), List.length_cons, Nat.mul_succ,
      Nat.add_comm]

lemma getElem?_flatMap_parts {l : List α} (h : ∀ a ∈ l, (f a).length = n) (hn : 0 < n) (k : ℕ) :
    (l.flatMap f)[k]? = l[k / n]?.bind fun a => (f a)[k % n]? := by
  induction l generalizing k with
  | nil => simp
  | cons a l ih =>
    have ha := h a List.mem_cons_self
    rw [List.flatMap_cons]
    rcases Nat.lt_or_ge k n with hlt | hge
    · rw [List.getElem?_append_left (by omega), Nat.div_eq_of_lt hlt, Nat.mod_eq_of_lt hlt]
      rfl
    · rw [List.getElem?_append_right (by omega), ha,
        ih (fun b hb => h b (List.mem_cons_of_mem a hb)), Nat.div_eq_sub_div hn hge,
        List.getElem?_cons_succ, Nat.mod_eq_sub_mod hge]

end parts

/-! ### Filling up -/

/-- A piece filled up with `z`; what does not fit is dropped. -/
def fill (z : α) (l : List α) : Fin n → α := fun i => l.getD i z

lemma ofFn_fill (z : α) {l : List α} (h : l.length ≤ n) :
    List.ofFn (fill z l : Fin n → α) = l ++ List.replicate (n - l.length) z := by
  apply List.ext_getElem
  · simp; omega
  · intro i h1 h2
    simp only [List.length_ofFn] at h1
    rcases Nat.lt_or_ge i l.length with hi | hi
    · simp [fill, List.getElem_append_left, hi]
    · simp [fill, List.getElem_append_right, hi]

lemma fill_take (z : α) (l : List α) : (fill z (l.take n) : Fin n → α) = fill z l := by
  funext i
  simp [fill, List.getD, i.isLt]

/-! ### What is left of a list that was filled up -/

section kept

variable [DecidableEq α]

/-- What can be told of a list after it was filled up: its first `n` elements, without those
at the end that could have been filled in. -/
def kept (n : ℕ) (z : α) (l : List α) : List α := (l.take n).rdropWhile (· == z)

lemma rdropWhile_append_replicate (z : α) (l : List α) (m : ℕ) :
    (l ++ List.replicate m z).rdropWhile (· == z) = l.rdropWhile (· == z) := by
  induction m with
  | zero => simp
  | succ m ih =>
    rw [List.replicate_succ', ← List.append_assoc, List.rdropWhile_concat_pos _ _ _ (by simp), ih]

lemma kept_eq (z : α) (l : List α) :
    kept n z l = (List.ofFn (fill z l : Fin n → α)).rdropWhile (· == z) := by
  rw [← fill_take, ofFn_fill z (List.length_take_le n l), rdropWhile_append_replicate, kept]

lemma ofFn_fill_kept (z : α) (l : List α) : List.ofFn (fill z l : Fin n → α) =
    kept n z l ++ List.replicate (n - (kept n z l).length) z := by
  rw [kept_eq]
  set w := List.ofFn (fill z l : Fin n → α) with hw
  have hsplit : w.rdropWhile (· == z) ++ w.rtakeWhile (· == z) = w :=
    List.rdropWhile_append_rtakeWhile
  have hlen : w.length = n := List.length_ofFn
  have hlens := congrArg List.length hsplit
  rw [List.length_append, hlen] at hlens
  have htail : w.rtakeWhile (· == z) =
      List.replicate (n - (w.rdropWhile (· == z)).length) z := by
    refine List.eq_replicate_iff.mpr ⟨by omega, fun x hx => ?_⟩
    have hxz : (x == z) = true := List.mem_rtakeWhile_imp (p := (· == z)) hx
    exact eq_of_beq hxz
  rw [← htail, hsplit]

/-- **Two lists fill up to the same if the same is kept of them.** -/
theorem fill_eq_fill_iff {z : α} {l l' : List α} :
    (fill z l : Fin n → α) = fill z l' ↔ kept n z l = kept n z l' := by
  constructor
  · intro h
    rw [kept_eq, kept_eq, h]
  · intro h
    apply List.ofFn_injective
    rw [ofFn_fill_kept, ofFn_fill_kept, h]

lemma kept_of_length_le {z : α} {l : List α} (hlen : l.length ≤ n)
    (hlast : ∀ a ∈ l.getLast?, a ≠ z) : kept n z l = l := by
  rw [kept, List.take_of_length_le hlen, List.rdropWhile_eq_self_iff]
  intro hl
  have := hlast (l.getLast hl) (List.getLast?_eq_some_getLast hl)
  simpa using this

end kept

/-! ### The pieces together -/

/-- **The filled pieces give the list back**, up to what was filled in at the end. -/
theorem take_flatMap_fill (z : α) {k : ℕ} {l : List α} (hk : l.length ≤ k) (hn : 0 < n) :
    ((chunksUpTo n k l).flatMap fun c => List.ofFn (fill z c : Fin n → α)).take l.length = l := by
  induction k generalizing l with
  | zero => simp [List.length_eq_zero_iff.mp (Nat.le_zero.mp hk)]
  | succ k ih =>
    cases l with
    | nil => simp
    | cons a l =>
      have hlen : ((a :: l).drop n).length ≤ k := by
        simp only [List.length_drop, List.length_cons] at hk ⊢; omega
      have hrec := ih hlen
      have htake : ((a :: l).take n).length ≤ n := by simp
      rw [chunksUpTo, List.flatMap_cons, ofFn_fill z htake]
      rcases Nat.lt_or_ge (a :: l).length n with hlt | hge
      · -- the last piece: only its own part is kept
        rw [List.take_of_length_le hlt.le, List.append_assoc, List.take_left']
        rfl
      · have hfull : ((a :: l).take n).length = n := by
          rw [List.length_take]; omega
        rw [hfull, Nat.sub_self, List.replicate_zero, List.append_nil, List.take_append, hfull,
          List.take_take, Nat.min_eq_right hge]
        rw [List.length_drop] at hrec
        rw [hrec, List.take_append_drop]

end RustyOs.Chunks
