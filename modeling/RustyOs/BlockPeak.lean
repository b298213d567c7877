import RustyOs.FixedSizeBlock

/-!
How many blocks of a class the global allocator takes from the fallback heap.

A block of a class is taken when the list of the class is empty, and it never goes back: it is
with the client or in the list. So the blocks taken are those in use and those in the list, and
when another one is taken, all of them are in use. The number taken is the most that the client
ever had at one time.
-/

namespace RustyOs.BlockPeak

open RustyOs.Allocator RustyOs.Machine RustyOs.FixedSizeBlock

/-- The client gives back what it was given; nothing is asked of the fallback heap. -/
def GivesBack (s : Heap) : Event → Prop
  | .alloc _ _ => True
  | .dealloc ptr layout => (ptr, layout) ∈ s.live

/-- The allocation is one of class `i`. -/
def ofClass (i : Index) (b : ℕ × Layout) : Bool := listIndex b.2 = some i

/-- The allocations of class `i` in the hands of the client. -/
def liveCount (i : Index) (s : Heap) : ℕ := s.live.countP (ofClass i)

/-- The event is an allocation of class `i` that the fallback heap is asked for and grants. -/
def taken (i : Index) (s : Heap) : Event → Bool
  | .alloc layout heap =>
    let o := alloc s.allocator heap layout
    listIndex layout = some i ∧ o.asked.isSome ∧ o.ptr.isSome
  | .dealloc _ _ => false

/-- The heap with its history: the fallback allocations granted for each class, and the most
allocations of the class there have been at one time. -/
structure History where
  heap : Heap
  granted : Index → ℕ
  peak : Index → ℕ

namespace History

def initial : History := ⟨.initial, fun _ => 0, fun i => liveCount i .initial⟩

def next (t : History) (e : Event) : Option History :=
  (t.heap.next e).map fun s =>
    { heap := s
      granted := fun i => t.granted i + (taken i t.heap e).toNat
      peak := fun i => max (t.peak i) (liveCount i s) }

end History

/-! ### One call -/

variable {s s' : Heap} {i : Index}

/-- What a call of `alloc` does to a class: nothing, or a node of its list goes to the client, or
the list is empty and the fallback heap grants a block. -/
lemma alloc_class {layout : Layout} {heap : Layout → Option ℕ}
    (hs : s.next (.alloc layout heap) = some s') (i : Index) :
    (taken i s (.alloc layout heap) = false ∧ liveCount i s' = liveCount i s ∧
        (s'.allocator.listHeads i).length = (s.allocator.listHeads i).length) ∨
      (taken i s (.alloc layout heap) = false ∧ liveCount i s' = liveCount i s + 1 ∧
        (s'.allocator.listHeads i).length + 1 = (s.allocator.listHeads i).length) ∨
      (taken i s (.alloc layout heap) = true ∧ liveCount i s' = liveCount i s + 1 ∧
        s.allocator.listHeads i = [] ∧ s'.allocator.listHeads i = []) := by
  obtain rfl := Option.some_inj.mp hs
  by_cases hi : listIndex layout = some i
  · -- the class of the request
    rcases hn : s.allocator.listHeads i with _ | ⟨n, rest⟩
    · rcases hp : heap (classLayout i) with _ | p
      · left
        simp [taken, alloc, fallbackAlloc, liveCount, hi, hn, hp]
      · right; right
        simp [taken, alloc, fallbackAlloc, liveCount, ofClass, hi, hn, hp]
    · right; left
      simp [taken, alloc, liveCount, ofClass, hi, hn]
  · -- another class, or none: an allocation that does not count
    left
    have hlive : ∀ q : Option ℕ, ((q.map fun p => (p, layout)).toList ++ s.live).countP
        (ofClass i) = s.live.countP (ofClass i) := by
      intro q
      cases q <;> simp [ofClass, hi]
    refine ⟨by simp [taken, hi], hlive _, ?_⟩
    rcases hj : listIndex layout with _ | j
    · simp only [alloc, hj, fallbackAlloc]
    · have hij : i ≠ j := fun e => hi (e ▸ hj)
      rcases hn : s.allocator.listHeads j with _ | ⟨n, rest⟩
      · simp only [alloc, hj, hn, fallbackAlloc]
      · simp only [alloc, hj, hn, Function.update_of_ne hij]

lemma dealloc_class {ptr : ℕ} {layout : Layout} (hok : (ptr, layout) ∈ s.live)
    (hs : s.next (.dealloc ptr layout) = some s') (i : Index) :
    liveCount i s' + (s'.allocator.listHeads i).length =
        liveCount i s + (s.allocator.listHeads i).length ∧
      liveCount i s' ≤ liveCount i s := by
  have hcount : liveCount i s =
      (s.live.erase (ptr, layout)).countP (ofClass i) +
        if ofClass i (ptr, layout) then 1 else 0 := by
    rw [liveCount, (List.perm_cons_erase hok).countP_eq, List.countP_cons]
  rcases hj : listIndex layout with _ | j
  · -- a block for the fallback heap is of no class
    obtain ⟨r, hr, rfl⟩ := Option.map_eq_some_iff.mp hs
    rw [dealloc, hj] at hr
    obtain ⟨-, hr⟩ := Option.ite_none_left_eq_some.mp hr
    obtain rfl := Option.some_inj.mp hr
    have hno : ofClass i (ptr, layout) = false := by simp [ofClass, hj]
    rw [hno] at hcount
    exact ⟨congrArg (· + _) hcount.symm, hcount.ge⟩
  · rw [next_dealloc_class hj] at hs
    obtain rfl := Option.some_inj.mp hs
    by_cases hij : i = j
    · subst hij
      have hyes : ofClass i (ptr, layout) = true := by simp [ofClass, hj]
      rw [hyes, if_pos rfl] at hcount
      simp only [Function.update_self, List.length_cons, hcount]
      exact ⟨by simp only [liveCount]; omega, Nat.le_add_right _ _⟩
    · have hno : ofClass i (ptr, layout) = false := by
        simp only [ofClass, hj, Option.some_inj, decide_eq_false_iff_not]
        exact Ne.symm hij
      rw [hno] at hcount
      simp only [Function.update_of_ne hij]
      exact ⟨congrArg (· + _) hcount.symm, hcount.ge⟩

/-! ### Runs -/

variable {t t' : History} {e : Event}

/-- The blocks granted are in use or in the list, and all of them have been in use at once. -/
structure Tallied (t : History) : Prop where
  granted : ∀ i, t.granted i = liveCount i t.heap + (t.heap.allocator.listHeads i).length
  peak : ∀ i, t.peak i = t.granted i

lemma Tallied.of_class
    (h : ∀ i, t.granted i = liveCount i t.heap + (t.heap.allocator.listHeads i).length ∧
      t.peak i = t.granted i) : Tallied t :=
  ⟨fun i => (h i).1, fun i => (h i).2⟩

lemma Tallied.next (h : Tallied t) (hok : GivesBack t.heap e) (hs : t.next e = some t') :
    Tallied t' := by
  obtain ⟨s', hn, rfl⟩ := Option.map_eq_some_iff.mp hs
  cases e with
  | alloc layout heap =>
    refine .of_class fun i => ?_
    have hgranted := h.granted i
    have hpeak := h.peak i
    rcases alloc_class hn i with ⟨ht, hl, hf⟩ | ⟨ht, hl, hf⟩ | ⟨ht, hl, hf, hf'⟩
    · simp only [ht, hl, hf, hpeak, Bool.toNat_false]
      omega
    · simp only [ht, hl, hpeak, Bool.toNat_false]
      omega
    · -- the list was empty: all blocks granted so far are in use
      rw [hf, List.length_nil] at hgranted
      simp only [ht, hl, hf', hpeak, Bool.toNat_true, List.length_nil]
      omega
  | dealloc ptr layout =>
    have hclass := dealloc_class hok hn
    refine ⟨fun i => ?_, fun i => ?_⟩
    · exact (h.granted i).trans (hclass i).1.symm
    · have hle : liveCount i s' ≤ t.peak i := by
        rw [h.peak i, h.granted i]
        exact (hclass i).2.trans (Nat.le_add_right _ _)
      exact (max_eq_left hle).trans (h.peak i)

/-- **The fallback heap is asked for no more than the peak.** Along every run in which the client
gives back what it was given, whatever the fallback heap answers: the fallback allocations
granted for a class are as many as the allocations of the class in use and the blocks in its
list, and as many as the most that were ever in use at one time. -/
theorem granted_eq_peak (h : Reach History.next (fun t => GivesBack t.heap) .initial t)
    (i : Index) :
    t.granted i = liveCount i t.heap + (t.heap.allocator.listHeads i).length ∧
      t.granted i = t.peak i := by
  have hinit : Tallied .initial := ⟨fun _ => rfl, fun _ => rfl⟩
  have htal : Tallied t := h.inv hinit fun _ _ _ hi hok hs => hi.next hok hs
  exact ⟨htal.granted i, (htal.peak i).symm⟩

/-- Two blocks of 8 bytes are granted; one of them is given back and taken again. -/
theorem granted_eq_peak_reuse :
    ∃ t, Reach History.next (fun t => GivesBack t.heap) .initial t ∧
      t.heap.live.length = 2 ∧ t.granted 0 = 2 ∧ t.granted 0 = t.peak 0 := by
  have h₁ : Reach History.next (fun t => GivesBack t.heap) .initial _ :=
    .step (e := Event.alloc (classLayout 0) fun _ => some 16) .start trivial rfl
  have h₂ := Reach.step (e := Event.alloc (classLayout 0) fun _ => some 24) h₁ trivial rfl
  have h₃ := Reach.step (e := Event.dealloc 16 (classLayout 0)) h₂
    (by simp only [GivesBack]; decide) rfl
  have h₄ := Reach.step (e := Event.alloc (classLayout 0) fun _ => none) h₃ trivial rfl
  exact ⟨_, h₄, by decide, by decide, (granted_eq_peak h₄ 0).2⟩

end RustyOs.BlockPeak
