import RustyOs.Links
import RustyOs.Regions

/-!
Linked lists that lie in memory, and what the owner of a part of memory knows of it.

Memory is bytes. A pointer is a word of eight of them, lowest first, and the null pointer is
zero. A node of a list holds the pointer to the next one at a fixed offset, so a list is the
path that these words make from node to node. It depends on these words only: memory may change
elsewhere, a node may be taken out behind another one or put in, and the rest of the list is
what it was.

Whoever owns a region of memory and writes to it expects to find there what was written last.
-/

namespace RustyOs.IntrusiveList

open RustyOs.Links RustyOs.Regions

abbrev Memory := ℕ → UInt8

/-! ### Words -/

/-- The number in `n` bytes from `a` on, lowest first. -/
def load (m : Memory) : ℕ → ℕ → ℕ
  | 0, _ => 0
  | n + 1, a => (m a).toNat + 256 * load m n (a + 1)

/-- The word at `a`. -/
def word (m : Memory) (a : ℕ) : ℕ := load m 8 a

/-- The addresses of the word at `a`. -/
def wordAt (a : ℕ) : Region := ⟨a, 8⟩

def setWord (m : Memory) (a v : ℕ) : Memory := fun x =>
  if a ≤ x ∧ x < a + 8 then UInt8.ofNat (v / 256 ^ (x - a)) else m x

variable {m m' : Memory} {a b v : ℕ}

lemma load_congr {n : ℕ} (h : ∀ x, a ≤ x → x < a + n → m x = m' x) :
    load m n a = load m' n a := by
  induction n generalizing a with
  | zero => rfl
  | succ n ih =>
    rw [load, load, h a (le_refl _) (by omega), ih fun x hx hlt => h x (by omega) (by omega)]

lemma word_congr (h : Set.EqOn m m' (wordAt a).bytes) : word m a = word m' a :=
  load_congr fun _ hx hlt => h ⟨hx, hlt⟩

lemma load_digits {n : ℕ} (h : ∀ x, a ≤ x → x < a + n → m x = UInt8.ofNat (v / 256 ^ (x - a))) :
    load m n a = v % 256 ^ n := by
  -- the first byte is the remainder by 256, the others are those of the quotient
  induction n generalizing a v with
  | zero => rw [load, pow_zero, Nat.mod_one]
  | succ n ih =>
    have hrest : load m n (a + 1) = v / 256 % 256 ^ n := by
      refine ih fun x hx hlt => ?_
      rw [h x (by omega) (by omega), Nat.div_div_eq_div_mul, ← pow_succ',
        show x - (a + 1) + 1 = x - a by omega]
    have hfirst : (m a).toNat = v % 256 := by
      rw [h a (le_refl _) (by omega), Nat.sub_self, pow_zero, Nat.div_one]
      rfl
    rw [load, hrest, hfirst, pow_succ', Nat.mod_mul]

lemma word_setWord (h : v < 2 ^ 64) : word (setWord m a v) a = v := by
  have : word (setWord m a v) a = v % 256 ^ 8 :=
    load_digits fun x hx hlt => if_pos ⟨hx, hlt⟩
  rw [this, Nat.mod_eq_of_lt]
  simpa using h

lemma setWord_of_notMem {x : ℕ} (h : x ∉ (wordAt a).bytes) : setWord m a v x = m x :=
  if_neg h

lemma eqOn_setWord {s : Set ℕ} (h : Disjoint (wordAt a).bytes s) :
    Set.EqOn m (setWord m a v) s := fun _ hx =>
  (setWord_of_notMem fun ha => Set.disjoint_left.mp h ha hx).symm

lemma word_setWord_of_disjoint (h : Disjoint (wordAt a).bytes (wordAt b).bytes) :
    word (setWord m a v) b = word m b :=
  (word_congr (eqOn_setWord h)).symm

lemma word_lt : word m a < 2 ^ 64 := by
  have hload : ∀ n a, load m n a < 256 ^ n := by
    intro n
    induction n with
    | zero => intro a; simp [load]
    | succ n ih =>
      intro a
      have hrest := ih (a + 1)
      have hbyte := (m a).toNat_lt
      rw [load, pow_succ]
      omega
  exact (hload 8 a).trans_eq (by norm_num)

/-- The pointer at `a` is taken, and the null pointer left in its place. -/
def take (m : Memory) (a : ℕ) : ℕ × Memory := (word m a, setWord m a 0)

/-- Memory has changed in the words at `ws` at most. -/
def SameBut (ws : List ℕ) (m m' : Memory) : Prop :=
  ∀ x, (∀ a ∈ ws, x ∉ (wordAt a).bytes) → m' x = m x

section sameBut

variable {ws ws' : List ℕ} {u : Set ℕ} {m'' : Memory}

lemma sameBut_refl : SameBut ws m m := fun _ _ => rfl

lemma sameBut_setWord (ha : a ∈ ws) : SameBut ws m (setWord m a v) := fun _ hx =>
  setWord_of_notMem (hx a ha)

lemma SameBut.trans (h : SameBut ws m m') (h' : SameBut ws m' m'') : SameBut ws m m'' :=
  fun x hx => (h' x hx).trans (h x hx)

lemma SameBut.mono (h : SameBut ws m m') (hsub : ws ⊆ ws') : SameBut ws' m m' :=
  fun x hx => h x fun a ha => hx a (hsub ha)

lemma SameBut.eqOn (h : SameBut ws m m') (hu : ∀ a ∈ ws, Disjoint (wordAt a).bytes u) :
    Set.EqOn m m' u :=
  fun x hx => (h x fun a ha hxa => Set.disjoint_left.mp (hu a ha) hxa hx).symm

lemma SameBut.word (h : SameBut ws m m')
    (hu : ∀ a ∈ ws, Disjoint (wordAt a).bytes (wordAt b).bytes) : word m' b = word m b :=
  (word_congr (h.eqOn hu)).symm

end sameBut

/-! ### Lists -/

/-- The node after the one at `a`; its pointer stands `o` bytes into the node. -/
def next (o : ℕ) (m : Memory) (a : ℕ) : Option ℕ :=
  if word m (a + o) = 0 then none else some (word m (a + o))

/-- The nodes that come after the one at `a` are those at `l`. -/
def Linked (o : ℕ) (m : Memory) (a : ℕ) (l : List ℕ) : Prop := Path (next o m) a (a :: l)

variable {o : ℕ} {l : List ℕ}

lemma next_congr (h : word m (a + o) = word m' (b + o)) : next o m a = next o m' b := by
  rw [next, next, h]

lemma linked_nil : Linked o m a [] ↔ word m (a + o) = 0 := by
  constructor
  · rintro (h | ⟨-, ht⟩)
    · by_contra hne
      rw [next, if_neg hne] at h
      cases h
    · obtain ⟨t, ht'⟩ := ht.eq_cons
      cases ht'
  · intro h
    exact .last (if_pos h)

lemma linked_cons : Linked o m a (b :: l) ↔ (word m (a + o) = b ∧ b ≠ 0) ∧ Linked o m b l := by
  constructor
  · intro h
    cases h with
    | cons hn t =>
      obtain ⟨l', hl'⟩ := t.eq_cons
      obtain ⟨rfl, rfl⟩ := List.cons.inj hl'
      unfold next at hn
      split_ifs at hn with h0
      obtain rfl := Option.some_inj.mp hn
      exact ⟨⟨rfl, h0⟩, t⟩
  · rintro ⟨⟨rfl, h0⟩, h⟩
    exact .cons (if_neg h0) h

lemma Linked.congr (h : Linked o m a l) (hm : ∀ x ∈ a :: l, word m' (x + o) = word m (x + o)) :
    Linked o m' a l :=
  Path.congr h fun x hx => next_congr (hm x hx)

lemma Linked.relink (h : Linked o m a l) (hb : word m' (b + o) = word m (a + o))
    (hm : ∀ x ∈ l, word m' (x + o) = word m (x + o)) : Linked o m' b l := by
  cases l with
  | nil => exact linked_nil.mpr (hb.trans (linked_nil.mp h))
  | cons c l =>
    obtain ⟨hc, hl⟩ := linked_cons.mp h
    exact linked_cons.mpr ⟨⟨hb.trans hc.1, hc.2⟩, hl.congr hm⟩

lemma Linked.pop (h : Linked o m a (b :: l)) (ha : word m' (a + o) = word m (b + o))
    (hm : ∀ x ∈ l, word m' (x + o) = word m (x + o)) : Linked o m' a l :=
  (linked_cons.mp h).2.relink ha hm

lemma Linked.push (h : Linked o m a l) (hb : b ≠ 0) (ha : word m' (a + o) = b)
    (hnew : word m' (b + o) = word m (a + o)) (hm : ∀ x ∈ l, word m' (x + o) = word m (x + o)) :
    Linked o m' a (b :: l) :=
  linked_cons.mpr ⟨⟨ha, hb⟩, h.relink hnew hm⟩

/-! ### What was written -/

/-- The bytes that were written and are to stay. -/
abbrev View := ℕ → Option UInt8

/-- Nothing in `r` is to stay. -/
def View.forget (w : View) (r : Region) : View := fun x =>
  if r.start ≤ x ∧ x < r.stop then none else w x

/-- Only bytes of the regions were written, and they hold what was. -/
structure Kept (rs : List Region) (w : View) (m : Memory) : Prop where
  within : ∀ x, w x ≠ none → ∃ r ∈ rs, x ∈ r.bytes
  holds : ∀ x b, w x = some b → m x = b

variable {rs rs' : List Region} {w : View}

lemma kept_nothing : Kept rs (fun _ => none) m := ⟨fun _ h => absurd rfl h, fun _ _ h => nomatch h⟩

lemma Kept.frame (h : Kept rs w m) (hm : ∀ r ∈ rs, Set.EqOn m m' r.bytes) : Kept rs w m' := by
  refine ⟨h.within, fun x b hx => ?_⟩
  obtain ⟨r, hr, hxr⟩ := h.within x (by rw [hx]; exact Option.some_ne_none b)
  rw [← hm r hr hxr, h.holds x b hx]

lemma Kept.mono (h : Kept rs w m) (hrs : rs ⊆ rs') : Kept rs' w m :=
  ⟨fun x hx => (h.within x hx).imp fun _ hr => ⟨hrs hr.1, hr.2⟩, h.holds⟩

lemma Kept.write {r : Region} {x : ℕ} (h : Kept rs w m) (hr : r ∈ rs) (hx : x ∈ r.bytes)
    (b : UInt8) : Kept rs (Function.update w x (some b)) (Function.update m x b) := by
  refine ⟨fun y hy => ?_, fun y c hy => ?_⟩
  · by_cases hxy : y = x
    · exact ⟨r, hr, hxy ▸ hx⟩
    · rw [Function.update_of_ne hxy] at hy
      exact h.within y hy
  · by_cases hxy : y = x
    · subst hxy
      rw [Function.update_self] at hy ⊢
      exact Option.some_inj.mp hy
    · rw [Function.update_of_ne hxy] at hy ⊢
      exact h.holds y c hy

lemma Kept.forget {r : Region} (h : Kept rs w m) (hrs : ∀ r' ∈ rs, r' = r ∨ r' ∈ rs') :
    Kept rs' (w.forget r) m := by
  have hof : ∀ x, w.forget r x ≠ none → x ∉ r.bytes ∧ w.forget r x = w x := by
    intro x hx
    by_cases hin : r.start ≤ x ∧ x < r.stop
    · exact absurd (if_pos hin) hx
    · exact ⟨hin, if_neg hin⟩
  refine ⟨fun x hx => ?_, fun x b hx => ?_⟩
  · obtain ⟨hout, he⟩ := hof x hx
    obtain ⟨r', hr', hxr⟩ := h.within x (he ▸ hx)
    rcases hrs r' hr' with rfl | hmem
    · exact absurd hxr hout
    · exact ⟨r', hmem, hxr⟩
  · obtain ⟨-, he⟩ := hof x (by rw [hx]; exact Option.some_ne_none b)
    exact h.holds x b (he ▸ hx)

end RustyOs.IntrusiveList
