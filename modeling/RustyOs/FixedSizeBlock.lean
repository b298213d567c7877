import RustyOs.Allocator
import RustyOs.Machine
import RustyOs.Regions

/-!
The global allocator (`src/allocator/fixed_size_block.rs`).

There is a list of free blocks for each of nine sizes, and a fallback heap that is asked when
the list is empty or the request is larger. The nodes of a list are references that own each
other, so a list is the sequence of its addresses. The fallback heap is the environment's: it
gives any block that is apart from those it has given and not got back.

A block the fallback heap has given is, at any time, either in the hands of the client or in
the list of its class. Everything else follows from this.
-/

namespace RustyOs.FixedSizeBlock

open RustyOs.Allocator RustyOs.Machine RustyOs.Regions

def blockSizes : List ℕ := [8, 16, 32, 64, 128, 256, 512, 1024, 2048]

/-- An index into `blockSizes`. -/
abbrev Index := Fin 9

def blockSize (i : Index) : ℕ := blockSizes.get i

/-- The size and the alignment of a node of a free list. -/
def nodeSize : ℕ := 8
def nodeAlign : ℕ := 8

lemma blockSize_eq : ∀ i : Index, blockSize i = 2 ^ (i.val + 3) := by decide

lemma blockSize_le (i : Index) : blockSize i ≤ 2048 := by revert i; decide

lemma nodeSize_le (i : Index) : nodeSize ≤ blockSize i ∧ nodeAlign ≤ blockSize i := by
  revert i; decide

/-- The layout asked for a block of a class. -/
def classLayout (i : Index) : Layout where
  size := blockSize i
  align := blockSize i
  pow := ⟨i.val + 3, blockSize_eq i⟩
  fits := by have := blockSize_le i; omega

def listIndex (layout : Layout) : Option Index :=
  let requiredBlockSize := max layout.size layout.align
  (List.finRange 9).find? fun i => requiredBlockSize ≤ blockSize i

lemma listIndex_spec {l : Layout} {i : Index} (h : listIndex l = some i) :
    l.size ≤ blockSize i ∧ l.align ≤ blockSize i := by
  have := List.find?_some h
  simp only [decide_eq_true_eq] at this
  exact ⟨(le_max_left _ _).trans this, (le_max_right _ _).trans this⟩

structure FixedSizeBlockAllocator where
  listHeads : Index → List ℕ

def FixedSizeBlockAllocator.new : FixedSizeBlockAllocator := ⟨fun _ => []⟩

/-- What a call of `alloc` has done: the pointer, unless it is null, and the layout the fallback
heap was asked for, if it was. -/
structure Outcome where
  ptr : Option ℕ
  allocator : FixedSizeBlockAllocator
  asked : Option Layout

section calls

variable (a : FixedSizeBlockAllocator)

/-- `fallback_alloc`; `heap` is the answer of `allocate_first_fit` to each layout. -/
def fallbackAlloc (heap : Layout → Option ℕ) (layout : Layout) : Outcome :=
  ⟨heap layout, a, some layout⟩

def alloc (heap : Layout → Option ℕ) (layout : Layout) : Outcome :=
  match listIndex layout with
  | some index =>
    match a.listHeads index with
    | node :: next => ⟨some node, ⟨Function.update a.listHeads index next⟩, none⟩
    | [] => fallbackAlloc a heap (classLayout index)
  | none => fallbackAlloc a heap layout

/-- The allocator after `dealloc`, and whether the block went to the fallback heap; a failed
assertion or a null pointer stops it. -/
def dealloc (ptr : ℕ) (layout : Layout) : Option (FixedSizeBlockAllocator × Bool) :=
  match listIndex layout with
  | some index =>
    if nodeSize ≤ blockSize index ∧ nodeAlign ≤ blockSize index then
      some (⟨Function.update a.listHeads index (ptr :: a.listHeads index)⟩, false)
    else none
  | none => if ptr = 0 then none else some (a, true)

end calls

/-! ### Runs -/

/-- The allocator with what it has in its care: the blocks the fallback heap has given and not
got back, and the allocations of the client. -/
structure Heap where
  allocator : FixedSizeBlockAllocator
  lent : List (ℕ × Layout)
  live : List (ℕ × Layout)

def Heap.initial : Heap := ⟨.new, [], []⟩

inductive Event
  | alloc (layout : Layout) (heap : Layout → Option ℕ)
  | dealloc (ptr : ℕ) (layout : Layout)

def Heap.next (s : Heap) : Event → Option Heap
  | .alloc layout heap =>
    let o := alloc s.allocator heap layout
    some
      { allocator := o.allocator
        lent := ((o.ptr.bind fun p => o.asked.map fun l => (p, l)).toList) ++ s.lent
        live := (o.ptr.map fun p => (p, layout)).toList ++ s.live }
  | .dealloc ptr layout =>
    (dealloc s.allocator ptr layout).map fun r =>
      { allocator := r.1
        lent := if r.2 then s.lent.erase (ptr, layout) else s.lent
        live := s.live.erase (ptr, layout) }

/-- The memory of an allocation. -/
def region (b : ℕ × Layout) : Region := ⟨b.1, b.2.size⟩

/-- A block the fallback heap may give: in the heap, aligned, and apart from those given. -/
structure Lends (memory : Region) (lent : List (ℕ × Layout)) (b : ℕ × Layout) : Prop where
  ptr_pos : 0 < b.1
  aligned : b.2.align ∣ b.1
  inside : (region b).Inside memory
  apart : ∀ b' ∈ lent, Disjoint (region b).bytes (region b').bytes

/-- The fallback heap keeps its contract, and the client gives back what it was given. -/
def Valid (memory : Region) (s : Heap) : Event → Prop
  | .alloc _ heap => ∀ layout p, heap layout = some p → Lends memory s.lent (p, layout)
  | .dealloc ptr layout => (ptr, layout) ∈ s.live

/-! ### The blocks in care -/

/-- The block behind an allocation. -/
def blockOf (b : ℕ × Layout) : ℕ × Layout := (b.1, ((listIndex b.2).map classLayout).getD b.2)

/-- The blocks in the free lists. -/
def freeBlocks (heads : Index → List ℕ) : List (ℕ × Layout) :=
  (List.finRange 9).flatMap fun i => (heads i).map fun n => (n, classLayout i)

lemma flatMap_perm_cons {α β : Type} [DecidableEq α] {f g : α → List β} {i : α} {x : β}
    {l : List α} (hl : l.Nodup) (hi : i ∈ l) (hfi : f i = x :: g i)
    (hf : ∀ j ∈ l, j ≠ i → f j = g j) : (l.flatMap f).Perm (x :: l.flatMap g) := by
  induction l with
  | nil => cases hi
  | cons j l ih =>
    obtain ⟨hj, hl⟩ := List.nodup_cons.mp hl
    rw [List.flatMap_cons, List.flatMap_cons]
    by_cases hij : i = j
    · subst hij
      have hrest : l.flatMap f = l.flatMap g := List.flatMap_congr fun k hk =>
        hf k (by simp [hk]) fun e => hj (e ▸ hk)
      rw [hfi, hrest]
      rfl
    · rw [hf j (by simp) (Ne.symm hij)]
      have hmem : i ∈ l := (List.mem_cons.mp hi).resolve_left hij
      have := ih hl hmem fun k hk => hf k (by simp [hk])
      exact (this.append_left _).trans List.perm_middle

lemma freeBlocks_cons (heads : Index → List ℕ) (i : Index) (n : ℕ) (l : List ℕ) :
    (freeBlocks (Function.update heads i (n :: l))).Perm
      ((n, classLayout i) :: freeBlocks (Function.update heads i l)) := by
  refine flatMap_perm_cons (i := i) (List.nodup_finRange 9) (List.mem_finRange i) ?_ ?_
  · rw [Function.update_self, Function.update_self, List.map_cons]
  · intro j _ hj
    rw [Function.update_of_ne hj, Function.update_of_ne hj]

/-- The blocks the fallback heap has given are those of the client and those in the lists. -/
structure Accounted (memory : Region) (s : Heap) : Prop where
  perm : s.lent.Perm (s.live.map blockOf ++ freeBlocks s.allocator.listHeads)
  lent : ∀ b ∈ s.lent, 0 < b.1 ∧ b.2.align ∣ b.1 ∧ (region b).Inside memory
  separate : Separate (s.lent.map region)

variable {memory : Region} {s s' : Heap} {e : Event}

lemma Accounted.lend {b : ℕ × Layout} (h : Accounted memory s) (hb : Lends memory s.lent b) :
    (∀ b' ∈ b :: s.lent, 0 < b'.1 ∧ b'.2.align ∣ b'.1 ∧ (region b').Inside memory) ∧
      Separate ((b :: s.lent).map region) := by
  refine ⟨List.forall_mem_cons.mpr ⟨⟨hb.ptr_pos, hb.aligned, hb.inside⟩, h.lent⟩, ?_⟩
  rw [List.map_cons, separate_cons]
  exact ⟨List.forall_mem_map.mpr hb.apart, h.separate⟩

lemma Accounted.alloc (h : Accounted memory s) (layout : Layout) (heap : Layout → Option ℕ)
    (hok : Valid memory s (.alloc layout heap)) (hs : s.next (.alloc layout heap) = some s') :
    Accounted memory s' := by
  obtain rfl := Option.some_inj.mp hs
  -- a block from the fallback heap goes to the client
  have hfall : ∀ l p, heap l = some p → blockOf (p, layout) = (p, l) →
      Accounted memory ⟨s.allocator, (p, l) :: s.lent, (p, layout) :: s.live⟩ := by
    intro l p hp hb
    obtain ⟨hlent, hsep⟩ := h.lend (hok l p hp)
    refine ⟨?_, hlent, hsep⟩
    rw [List.map_cons, hb, List.cons_append]
    exact h.perm.cons _
  unfold FixedSizeBlock.alloc
  rcases hi : listIndex layout with _ | i
  · rcases hp : heap layout with _ | p
    · simpa [fallbackAlloc, hp] using h
    · have := hfall layout p hp (by simp [blockOf, hi])
      simpa [fallbackAlloc, hp] using this
  · rcases hn : s.allocator.listHeads i with _ | ⟨n, rest⟩
    · rcases hp : heap (classLayout i) with _ | p
      · simpa [fallbackAlloc, hp, hn] using h
      · have := hfall (classLayout i) p hp (by simp [blockOf, hi])
        simpa [fallbackAlloc, hp, hn] using this
    · -- the node leaves its list for the client
      simp only [hn]
      refine ⟨h.perm.trans ?_, h.lent, h.separate⟩
      have hcons := freeBlocks_cons s.allocator.listHeads i n rest
      rw [← hn, Function.update_eq_self] at hcons
      have hb : blockOf (n, layout) = (n, classLayout i) := by simp [blockOf, hi]
      simp only [Option.map_some, Option.toList_some, List.map_cons, hb, List.cons_append]
      exact (hcons.append_left _).trans List.perm_middle

lemma Accounted.blockOf_mem (h : Accounted memory s) {b : ℕ × Layout} (hb : b ∈ s.live) :
    blockOf b ∈ s.lent :=
  h.perm.mem_iff.mpr (List.mem_append_left _ (List.mem_map_of_mem hb))

lemma next_dealloc_fallback {ptr : ℕ} {layout : Layout} (hi : listIndex layout = none)
    (hpos : 0 < ptr) : s.next (.dealloc ptr layout) =
      some ⟨s.allocator, s.lent.erase (ptr, layout), s.live.erase (ptr, layout)⟩ := by
  rw [Heap.next, dealloc, hi]
  simp only [if_neg hpos.ne', Option.map_some, if_true]

lemma next_dealloc_class {ptr : ℕ} {layout : Layout} {i : Index} (hi : listIndex layout = some i) :
    s.next (.dealloc ptr layout) =
      some ⟨⟨Function.update s.allocator.listHeads i (ptr :: s.allocator.listHeads i)⟩, s.lent,
        s.live.erase (ptr, layout)⟩ := by
  rw [Heap.next, dealloc, hi]
  simp only [if_pos (nodeSize_le i), Option.map_some, Bool.false_eq_true, if_false]

lemma Accounted.dealloc (h : Accounted memory s) {ptr : ℕ} {layout : Layout}
    (hok : (ptr, layout) ∈ s.live) :
    ∃ s', s.next (.dealloc ptr layout) = some s' ∧ Accounted memory s' := by
  have hperm := h.perm.trans (((List.perm_cons_erase hok).map blockOf).append_right _)
  rw [List.map_cons, List.cons_append] at hperm
  rcases hi : listIndex layout with _ | i
  · -- the block goes back to the fallback heap
    have hb : blockOf (ptr, layout) = (ptr, layout) := by simp [blockOf, hi]
    have hmem := h.blockOf_mem hok
    rw [hb] at hperm hmem
    have hpos := (h.lent _ hmem).1
    refine ⟨_, next_dealloc_fallback hi hpos, ?_,
      fun b hb => h.lent b (List.mem_of_mem_erase hb), ?_⟩
    · exact ((List.perm_cons_erase hmem).symm.trans hperm).cons_inv
    · exact h.separate.sublist (List.erase_sublist.map region)
  · -- the block goes to the list of its class
    have hb : blockOf (ptr, layout) = (ptr, classLayout i) := by simp [blockOf, hi]
    rw [hb] at hperm
    refine ⟨_, next_dealloc_class hi, ?_, h.lent, h.separate⟩
    have hcons := freeBlocks_cons s.allocator.listHeads i ptr (s.allocator.listHeads i)
    rw [Function.update_eq_self] at hcons
    exact hperm.trans (List.perm_middle.symm.trans (hcons.symm.append_left _))

lemma Accounted.next (h : Accounted memory s) (hok : Valid memory s e)
    (hs : s.next e = some s') : Accounted memory s' := by
  cases e with
  | alloc layout heap => exact h.alloc layout heap hok hs
  | dealloc ptr layout =>
    obtain ⟨t, ht, hacc⟩ := h.dealloc hok
    rw [ht] at hs
    exact Option.some_inj.mp hs ▸ hacc

/-! ### Heap safety -/

/-- The nodes of the free lists, with the size of their blocks. -/
def freeRegions (heads : Index → List ℕ) : List Region :=
  (List.finRange 9).flatMap fun i => (heads i).map fun n => ⟨n, blockSize i⟩

/-- The memory of the client is aligned, in the heap and not shared, and so are the blocks in
the free lists. -/
structure Safe (memory : Region) (s : Heap) : Prop where
  aligned : ∀ b ∈ s.live, b.2.align ∣ b.1
  inside : ∀ b ∈ s.live, (region b).Inside memory
  separate : Separate (s.live.map region)
  free_aligned : ∀ i, ∀ n ∈ s.allocator.listHeads i, blockSize i ∣ n
  free_inside : ∀ i, ∀ n ∈ s.allocator.listHeads i, (Region.mk n (blockSize i)).Inside memory
  free_live : ∀ i, ∀ n ∈ s.allocator.listHeads i, ∀ b ∈ s.live,
    Disjoint (Region.mk n (blockSize i)).bytes (region b).bytes
  free_separate : Separate (freeRegions s.allocator.listHeads)
  nodup : ((freeRegions s.allocator.listHeads).map Region.start).Nodup

lemma region_inside (b : ℕ × Layout) : (region b).Inside (region (blockOf b)) := by
  obtain ⟨p, l⟩ := b
  rcases hi : listIndex l with _ | i
  · simp [blockOf, hi, Region.Inside]
  · have := (listIndex_spec hi).1
    simp only [blockOf, hi, region, Region.Inside, Region.stop, Option.map_some, Option.getD_some,
      classLayout]
    omega

lemma align_dvd_blockOf (b : ℕ × Layout) : b.2.align ∣ (blockOf b).2.align := by
  obtain ⟨p, l⟩ := b
  rcases hi : listIndex l with _ | i
  · simp [blockOf, hi]
  · simp only [blockOf, hi, Option.map_some, Option.getD_some]
    exact pow_dvd_of_le l.pow (classLayout i).pow (listIndex_spec hi).2

lemma freeRegions_eq (heads : Index → List ℕ) :
    freeRegions heads = (freeBlocks heads).map region := by
  simp only [freeRegions, freeBlocks, List.map_flatMap, List.map_map]
  rfl

lemma mem_freeBlocks {heads : Index → List ℕ} {i : Index} {n : ℕ} (hn : n ∈ heads i) :
    (n, classLayout i) ∈ freeBlocks heads :=
  List.mem_flatMap.mpr ⟨i, List.mem_finRange i, List.mem_map_of_mem hn⟩

lemma size_pos_of_mem {heads : Index → List ℕ} {r : Region} (hr : r ∈ freeRegions heads) :
    0 < r.size := by
  obtain ⟨i, -, hi⟩ := List.mem_flatMap.mp hr
  obtain ⟨n, -, rfl⟩ := List.mem_map.mp hi
  exact (by decide : 0 < nodeSize).trans_le (nodeSize_le i).1

lemma Accounted.safe (h : Accounted memory s) : Safe memory s := by
  have hsep := h.separate.perm (h.perm.map region)
  rw [List.map_append, List.map_map, ← freeRegions_eq] at hsep
  obtain ⟨hlive, hfree, hcross⟩ := List.pairwise_append.mp hsep
  have hnode : ∀ i, ∀ n ∈ s.allocator.listHeads i, (n, classLayout i) ∈ s.lent := fun i n hn =>
    h.perm.mem_iff.mpr (List.mem_append_right _ (mem_freeBlocks hn))
  refine ⟨fun b hb => ?_, fun b hb => ?_, ?_, fun i n hn => (h.lent _ (hnode i n hn)).2.1,
    fun i n hn => (h.lent _ (hnode i n hn)).2.2, fun i n hn b hb => ?_, hfree, ?_⟩
  · exact (align_dvd_blockOf b).trans (h.lent _ (h.blockOf_mem hb)).2.1
  · exact (region_inside b).trans (h.lent _ (h.blockOf_mem hb)).2.2
  · exact Separate.map_inside hlive region_inside
  · have hmem : Region.mk n (blockSize i) ∈ freeRegions s.allocator.listHeads := by
      rw [freeRegions_eq]
      exact List.mem_map_of_mem (mem_freeBlocks hn)
    have := hcross (region (blockOf b)) (List.mem_map_of_mem hb) _ hmem
    exact this.symm.mono_right (region_inside b).bytes_subset
  · -- blocks that do not overlap and are not empty start at different addresses
    rw [List.Nodup, List.pairwise_map]
    exact hfree.imp_of_mem fun {r t} hr ht hd =>
      Region.start_ne hd (size_pos_of_mem hr) (size_pos_of_mem ht)

/-- **Heap safety of the global allocator.** In every run in which the fallback heap keeps its
contract and the client gives back what it was given, the heap is safe at every point and no
call is stopped by an assertion. -/
theorem heap_safe (h : Reach Heap.next (Valid memory) .initial s) :
    Safe memory s ∧ ∀ e, Valid memory s e → ∃ s', s.next e = some s' := by
  have hacc : Accounted memory s := by
    refine h.inv ⟨?_, by simp [Heap.initial], .nil⟩ fun _ _ _ hi hok hs => hi.next hok hs
    simp [Heap.initial, freeBlocks, FixedSizeBlockAllocator.new]
  refine ⟨hacc.safe, fun e he => ?_⟩
  cases e with
  | alloc layout heap => exact ⟨_, rfl⟩
  | dealloc ptr layout =>
    obtain ⟨s', hs, -⟩ := hacc.dealloc he
    exact ⟨s', hs⟩

/-- Eight bytes at address 16, given back and taken again from the list. -/
theorem heap_safe_reuse : ∃ s, Reach Heap.next (Valid ⟨0, 4096⟩) .initial s ∧
    s.live = [(16, classLayout 0)] ∧ Safe ⟨0, 4096⟩ s := by
  have hlend : Valid ⟨0, 4096⟩ .initial
      (.alloc (classLayout 0) fun l => if l = classLayout 0 then some 16 else none) := by
    intro l p hp
    obtain ⟨rfl, hp⟩ := Option.ite_none_right_eq_some.mp hp
    obtain rfl := Option.some_inj.mp hp
    exact ⟨by decide, by decide, by unfold Region.Inside; decide, by simp [Heap.initial]⟩
  have h₁ : Reach Heap.next (Valid ⟨0, 4096⟩) .initial _ := .step .start hlend rfl
  have h₂ := Reach.step (e := Event.dealloc 16 (classLayout 0)) h₁
    (by simp only [Valid]; decide) rfl
  have h₃ := Reach.step (e := Event.alloc (classLayout 0) fun _ => none) h₂
    (by intro l p hp; cases hp) rfl
  exact ⟨_, h₃, by decide, (heap_safe h₃).1⟩

end RustyOs.FixedSizeBlock
