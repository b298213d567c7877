import RustyOs.FixedSizeBlock
import RustyOs.IntrusiveList

/-!
The global allocator in memory (`src/allocator/fixed_size_block.rs`).

The nodes of the free lists lie in the free blocks themselves, and the heads of the lists in the
allocator, at `self`. So everything the allocator knows is in memory that others write to as
well: the client writes to its allocations, the fallback heap to what it has not given away.
Both write a byte at a time, between any two calls.

The lists of addresses of `FixedSizeBlock` are what is found in memory at every point of such a
run, and no call touches a byte that the client has written and not given back.
-/

namespace RustyOs.BlockMemory

open RustyOs.Allocator RustyOs.Machine RustyOs.Regions RustyOs.IntrusiveList
open RustyOs.FixedSizeBlock (Index listIndex classLayout blockSize blockOf region nodeSize
  nodeAlign Accounted Lends freeBlocks)

/-- What a call of `alloc` has done: the pointer, unless it is null, and the layout the fallback
heap was asked for, if it was. -/
structure Outcome where
  ptr : Option ℕ
  memory : Memory
  asked : Option Layout

section calls

variable (self : ℕ)

/-- The address of `list_heads[index]`. -/
def listHead (index : Index) : ℕ := self + 8 * index

/-- The memory of `list_heads`. -/
def static : Region := ⟨self, 72⟩

/-- `new`: the references are all `None`. -/
def new (m : Memory) : Memory := fun x => if self ≤ x ∧ x < self + 72 then 0 else m x

/-- `fallback_alloc`; `heap` is the answer of `allocate_first_fit` to each layout. -/
def fallbackAlloc (heap : Layout → Option ℕ) (layout : Layout) (m : Memory) : Outcome :=
  ⟨heap layout, m, some layout⟩

def alloc (heap : Layout → Option ℕ) (layout : Layout) (m : Memory) : Outcome :=
  match listIndex layout with
  | some index =>
    -- `Option::take`; `None` is the null pointer
    let (node, m) := take m (listHead self index)
    if node = 0 then fallbackAlloc heap (classLayout index) m
    else
      let (next, m) := take m node
      ⟨some node, setWord m (listHead self index) next, none⟩
  | none => fallbackAlloc heap layout m

/-- Memory after `dealloc`, and whether the block went to the fallback heap; a failed assertion
or a null pointer stops it. -/
def dealloc (ptr : ℕ) (layout : Layout) (m : Memory) : Option (Memory × Bool) :=
  match listIndex layout with
  | some index =>
    let (next, m) := take m (listHead self index)
    if nodeSize ≤ blockSize index ∧ nodeAlign ≤ blockSize index then
      some (setWord (setWord m ptr next) (listHead self index) ptr, false)
    else none
  | none => if ptr = 0 then none else some (m, true)

/-! ### Runs -/

/-- Memory, the blocks the fallback heap has given and not got back, the allocations of the
client, and what the client has written to them. -/
structure Heap where
  memory : Memory
  lent : List (ℕ × Layout)
  live : List (ℕ × Layout)
  written : View

def Heap.initial (m : Memory) : Heap := ⟨new self m, [], [], fun _ => none⟩

inductive Event
  | alloc (layout : Layout) (heap : Layout → Option ℕ)
  | dealloc (ptr : ℕ) (layout : Layout)
  /-- The client writes a byte. -/
  | write (addr : ℕ) (value : UInt8)
  /-- The fallback heap does. -/
  | fallback (addr : ℕ) (value : UInt8)

def Heap.next (s : Heap) : Event → Option Heap
  | .alloc layout heap =>
    let o := alloc self heap layout s.memory
    some
      { s with
        memory := o.memory
        lent := ((o.ptr.bind fun p => o.asked.map fun l => (p, l)).toList) ++ s.lent
        live := (o.ptr.map fun p => (p, layout)).toList ++ s.live }
  | .dealloc ptr layout =>
    (dealloc self ptr layout s.memory).map fun r =>
      { memory := r.1
        lent := if r.2 then s.lent.erase (ptr, layout) else s.lent
        live := s.live.erase (ptr, layout)
        written := s.written.forget (region (ptr, layout)) }
  | .write addr value =>
    some
      { s with
        memory := Function.update s.memory addr value
        written := Function.update s.written addr (some value) }
  | .fallback addr value => some { s with memory := Function.update s.memory addr value }

end calls

/-- The fallback heap keeps its contract and writes to its own part of the heap; the client
writes to what it was given, and gives that back. -/
def Valid (memory : Region) (s : Heap) : Event → Prop
  | .alloc _ heap => ∀ layout p, heap layout = some p → Lends memory s.lent (p, layout)
  | .dealloc ptr layout => (ptr, layout) ∈ s.live
  | .write addr _ => ∃ b ∈ s.live, addr ∈ (region b).bytes
  | .fallback addr _ => addr ∈ memory.bytes ∧ ∀ b ∈ s.lent, addr ∉ (region b).bytes

/-- The event as the lists see it, if they do. -/
def event : Event → Option FixedSizeBlock.Event
  | .alloc layout heap => some (.alloc layout heap)
  | .dealloc ptr layout => some (.dealloc ptr layout)
  | .write _ _ | .fallback _ _ => none

variable {memory : Region} {self : ℕ} {m m' : Memory} {s s' : Heap} {t t' : FixedSizeBlock.Heap}
  {heads : Index → List ℕ} {i : Index} {n ptr : ℕ} {layout : Layout} {b : ℕ × Layout}

/-! ### The blocks -/

lemma disjoint_free (h : Accounted memory t) (hb : b ∈ t.live)
    (hn : n ∈ t.allocator.listHeads i) :
    Disjoint (region (blockOf b)).bytes (region (n, classLayout i)).bytes := by
  have hsep := h.separate.perm (h.perm.map region)
  rw [List.map_append, List.map_map] at hsep
  exact (List.pairwise_append.mp hsep).2.2 _ (List.mem_map_of_mem hb) _
    (List.mem_map_of_mem (FixedSizeBlock.mem_freeBlocks hn))

lemma disjoint_live (h : Accounted memory t) (hb : b ∈ t.live) {b' : ℕ × Layout}
    (hb' : b' ∈ t.live.erase b) :
    Disjoint (region (blockOf b)).bytes (region b').bytes := by
  have hsep := h.separate.perm (h.perm.map region)
  rw [List.map_append, List.map_map] at hsep
  have hlive := Separate.perm (List.pairwise_append.mp hsep).1 ((List.perm_cons_erase hb).map _)
  rw [List.map_cons, separate_cons] at hlive
  have := hlive.1 _ (List.mem_map_of_mem hb')
  exact this.mono_right (FixedSizeBlock.region_inside b').bytes_subset

/-- A block of a class, of which the first word may be a node. -/
structure Node (memory : Region) (n : ℕ) (i : Index) : Prop where
  pos : n ≠ 0
  inside : (region (n, classLayout i)).Inside memory

lemma Node.word_subset (_h : Node memory n i) :
    (wordAt n).bytes ⊆ (region (n, classLayout i)).bytes :=
  Region.Inside.bytes_subset ⟨le_refl _, Nat.add_le_add_left (FixedSizeBlock.nodeSize_le i).1 n⟩

lemma Node.lt (h : Node memory n i) (hmem : memory.stop ≤ 2 ^ 64) : n < 2 ^ 64 := by
  have hsize := (FixedSizeBlock.nodeSize_le i).1
  have hstop := h.inside.2
  simp only [region, classLayout, Region.stop, FixedSizeBlock.nodeSize] at hsize hstop hmem
  omega

lemma node_of_mem_lent (h : Accounted memory t) (hn : (n, classLayout i) ∈ t.lent) :
    Node memory n i :=
  ⟨(h.lent _ hn).1.ne', (h.lent _ hn).2.2⟩

lemma node_of_free (h : Accounted memory t) (hn : n ∈ t.allocator.listHeads i) :
    Node memory n i :=
  node_of_mem_lent h
    (h.perm.mem_iff.mpr (List.mem_append_right _ (FixedSizeBlock.mem_freeBlocks hn)))

lemma blockOf_class (hi : listIndex layout = some i) :
    blockOf (n, layout) = (n, classLayout i) := by
  simp [blockOf, hi]

lemma node_of_live (h : Accounted memory t) (hb : (n, layout) ∈ t.live)
    (hi : listIndex layout = some i) : Node memory n i :=
  node_of_mem_lent h (blockOf_class hi ▸ h.blockOf_mem hb)

lemma live_inside (h : Accounted memory t) (hb : b ∈ t.live) : (region b).Inside memory :=
  (FixedSizeBlock.region_inside b).trans (h.lent _ (h.blockOf_mem hb)).2.2

/-! ### The heads -/

lemma word_listHead_subset (i : Index) :
    (wordAt (listHead self i)).bytes ⊆ (static self).bytes := by
  refine Region.Inside.bytes_subset ?_
  simp only [Region.Inside, Region.stop, wordAt, listHead, static]
  omega

lemma disjoint_listHead {j : Index} (h : j ≠ i) :
    Disjoint (wordAt (listHead self i)).bytes (wordAt (listHead self j)).bytes := by
  rw [Region.disjoint_iff]
  have : j.val ≠ i.val := fun e => h (Fin.ext e)
  simp only [Region.stop, wordAt, listHead]
  omega

variable (hstatic : Disjoint (static self).bytes memory.bytes)

include hstatic in
lemma Node.disjoint_listHead (h : Node memory n i) (j : Index) :
    Disjoint (wordAt (listHead self j)).bytes (wordAt n).bytes :=
  hstatic.mono (word_listHead_subset j) (h.word_subset.trans h.inside.bytes_subset)

/-! ### The lists in memory -/

/-- The lists are those of `heads`. -/
def Lists (self : ℕ) (m : Memory) (heads : Index → List ℕ) : Prop :=
  ∀ i, Linked 0 m (listHead self i) (heads i)

lemma Lists.congr (h : Lists self m t.allocator.listHeads) (hacc : Accounted memory t)
    (hs : Set.EqOn m m' (static self).bytes)
    (hfree : ∀ i, ∀ n ∈ t.allocator.listHeads i,
      Set.EqOn m m' (region (n, classLayout i)).bytes) :
    Lists self m' t.allocator.listHeads := by
  intro i
  refine (h i).congr (List.forall_mem_cons.mpr ⟨?_, fun n hn => ?_⟩)
  · exact (word_congr (hs.mono (word_listHead_subset i))).symm
  · exact (word_congr ((hfree i n hn).mono (node_of_free hacc hn).word_subset)).symm

lemma Lists.update (h : Lists self m heads) {l : List ℕ} (hi : Linked 0 m' (listHead self i) l)
    (hj : ∀ j, j ≠ i → ∀ x ∈ listHead self j :: heads j, word m' x = word m x) :
    Lists self m' (Function.update heads i l) := by
  intro j
  by_cases hji : j = i
  · subst hji
    rwa [Function.update_self]
  · rw [Function.update_of_ne hji]
    exact (h j).congr (hj j hji)

lemma pop_spec {a c : ℕ} (hac : Disjoint (wordAt a).bytes (wordAt c).bytes) :
    let m₁ := (take m a).2
    let m₃ := setWord (take m₁ c).2 a (take m₁ c).1
    word m₃ a = word m c ∧ SameBut [a, c] m m₃ := by
  refine ⟨(word_setWord word_lt).trans (word_setWord_of_disjoint hac), ?_⟩
  have ha : ∀ {m v}, SameBut [a, c] m (setWord m a v) := sameBut_setWord (by simp)
  exact (ha.trans (sameBut_setWord (by simp))).trans ha

lemma push_spec {a c : ℕ} (hac : Disjoint (wordAt a).bytes (wordAt c).bytes) (hc : c < 2 ^ 64) :
    let m₃ := setWord (setWord (take m a).2 c (take m a).1) a c
    word m₃ a = c ∧ word m₃ c = word m a ∧ SameBut [a, c] m m₃ := by
  refine ⟨word_setWord hc, (word_setWord_of_disjoint hac).trans (word_setWord word_lt), ?_⟩
  have ha : ∀ {m v}, SameBut [a, c] m (setWord m a v) := sameBut_setWord (by simp)
  exact (ha.trans (sameBut_setWord (by simp))).trans ha

section words

variable {c : ℕ} (hacc : Accounted memory t) (hc : (c, layout) ∈ t.live)
  (hi : listIndex layout = some i) (hsame : SameBut [listHead self i, c] m m')

include hstatic hacc hc hi hsame

/-- A change in the head of a class and in a block of the client leaves the other words. -/
lemma word_node {j : Index} {x : ℕ} (hx : x ∈ t.allocator.listHeads j) :
    word m' x = word m x := by
  have hnode := node_of_free hacc hx
  have hclient := node_of_live hacc hc hi
  have hapart := disjoint_free hacc hc hx
  rw [blockOf_class hi] at hapart
  refine hsame.word (List.forall_mem_cons.mpr ⟨hnode.disjoint_listHead hstatic i,
    List.forall_mem_singleton.mpr ?_⟩)
  exact hapart.mono hclient.word_subset hnode.word_subset

lemma word_head {j : Index} (hj : j ≠ i) :
    word m' (listHead self j) = word m (listHead self j) :=
  hsame.word (List.forall_mem_cons.mpr ⟨disjoint_listHead hj, List.forall_mem_singleton.mpr
    ((node_of_live hacc hc hi).disjoint_listHead hstatic j).symm⟩)

lemma eqOn_live (hb : b ∈ t.live.erase (c, layout)) : Set.EqOn m m' (region b).bytes := by
  have hapart := disjoint_live hacc hc hb
  rw [blockOf_class hi] at hapart
  refine hsame.eqOn (List.forall_mem_cons.mpr ⟨?_, List.forall_mem_singleton.mpr ?_⟩)
  · exact hstatic.mono (word_listHead_subset i)
      (live_inside hacc (List.mem_of_mem_erase hb)).bytes_subset
  · exact hapart.mono_left (node_of_live hacc hc hi).word_subset

end words

/-! ### The steps -/

/-- What is found in memory: the lists of `t`, and what the client has written. -/
structure Stands (base : ℕ) (s : Heap) (t : FixedSizeBlock.Heap) : Prop where
  lent : s.lent = t.lent
  live : s.live = t.live
  lists : Lists base s.memory t.allocator.listHeads
  kept : Kept (s.live.map region) s.written s.memory

section answers

variable {heap : Layout → Option ℕ}

lemma alloc_fallback (hi : listIndex layout = none) :
    alloc self heap layout m = ⟨heap layout, m, some layout⟩ := by
  rw [alloc, hi]
  rfl

lemma alloc_empty (hi : listIndex layout = some i) (h0 : word m (listHead self i) = 0) :
    alloc self heap layout m =
      ⟨heap (classLayout i), setWord m (listHead self i) 0, some (classLayout i)⟩ := by
  simp only [alloc, hi, take, h0, fallbackAlloc, if_true]

lemma alloc_pop (hi : listIndex layout = some i) (hn : word m (listHead self i) = n)
    (h0 : n ≠ 0) :
    alloc self heap layout m =
      ⟨some n, setWord (take (take m (listHead self i)).2 n).2 (listHead self i)
        (take (take m (listHead self i)).2 n).1, none⟩ := by
  simp only [alloc, hi, take, hn]
  rw [if_neg h0]

lemma next_dealloc_fallback (hi : listIndex layout = none) (hpos : 0 < ptr) :
    s.next self (.dealloc ptr layout) =
      some ⟨s.memory, s.lent.erase (ptr, layout), s.live.erase (ptr, layout),
        s.written.forget (region (ptr, layout))⟩ := by
  simp only [Heap.next, dealloc, hi, if_neg hpos.ne', Option.map_some, if_true]

lemma next_dealloc_class (hi : listIndex layout = some i) :
    s.next self (.dealloc ptr layout) =
      some ⟨setWord (setWord (take s.memory (listHead self i)).2 ptr
          (take s.memory (listHead self i)).1) (listHead self i) ptr,
        s.lent, s.live.erase (ptr, layout), s.written.forget (region (ptr, layout))⟩ := by
  simp only [Heap.next, dealloc, hi, if_pos (FixedSizeBlock.nodeSize_le i), Option.map_some,
    Bool.false_eq_true, if_false]

end answers

lemma Stands.lend (h : Stands self s t) (hl : Lists self m' t.allocator.listHeads)
    (hm : ∀ b ∈ s.live, Set.EqOn s.memory m' (region b).bytes) (new : List (ℕ × Layout))
    (got : List (ℕ × Layout)) :
    Stands self ⟨m', new ++ s.lent, got ++ s.live, s.written⟩
      ⟨t.allocator, new ++ t.lent, got ++ t.live⟩ := by
  refine ⟨congrArg _ h.lent, congrArg _ h.live, hl, ?_⟩
  exact (h.kept.frame (List.forall_mem_map.mpr hm)).mono
    (List.map_subset _ (List.subset_append_right _ _))

include hstatic in
lemma Stands.alloc (h : Stands self s t) (hacc : Accounted memory t)
    {heap : Layout → Option ℕ} (hok : FixedSizeBlock.Valid memory t (.alloc layout heap)) :
    ∃ s' t', s.next self (.alloc layout heap) = some s' ∧
      t.next (.alloc layout heap) = some t' ∧ Stands self s' t' := by
  refine ⟨_, _, rfl, rfl, ?_⟩
  rcases hi : listIndex layout with _ | i
  · rw [alloc_fallback hi]
    simp only [FixedSizeBlock.alloc, hi, FixedSizeBlock.fallbackAlloc]
    exact h.lend h.lists (fun _ _ => Set.eqOn_refl _ _) _ _
  · have hlist := h.lists i
    rcases hn : t.allocator.listHeads i with _ | ⟨n, rest⟩
    · -- the head is written once more
      rw [hn, linked_nil] at hlist
      rw [alloc_empty hi hlist]
      simp only [FixedSizeBlock.alloc, hi, hn, FixedSizeBlock.fallbackAlloc]
      refine h.lend ?_ (fun b hb => ?_) _ _
      · have hnil : Linked 0 (setWord s.memory (listHead self i) 0) (listHead self i) [] :=
          linked_nil.mpr (word_setWord (by decide))
        have := h.lists.update hnil fun j hj =>
          List.forall_mem_cons.mpr ⟨word_setWord_of_disjoint (disjoint_listHead hj),
            fun x hx => word_setWord_of_disjoint
              ((node_of_free hacc hx).disjoint_listHead hstatic i)⟩
        rwa [← hn, Function.update_eq_self] at this
      · exact eqOn_setWord (hstatic.mono (word_listHead_subset i)
          (live_inside hacc (h.live ▸ hb)).bytes_subset)
    · -- the node is in the hands of the client afterwards, and apart from what is left
      rw [hn, linked_cons] at hlist
      obtain ⟨⟨hword, hpos⟩, -⟩ := hlist
      rw [alloc_pop hi hword hpos]
      obtain ⟨hnew, hsame⟩ := pop_spec (m := s.memory)
        ((node_of_free hacc (hn ▸ List.mem_cons_self)).disjoint_listHead hstatic i)
      have hacc' := hacc.alloc layout heap hok rfl
      simp only [FixedSizeBlock.alloc, hi, hn] at hacc' ⊢
      have hmem : (n, layout) ∈ (n, layout) :: t.live := List.mem_cons_self
      have hrest : ∀ x ∈ rest, word _ x = word s.memory x := fun x hx =>
        word_node hstatic hacc' hmem hi hsame (j := i) (by simpa using hx)
      have hother : ∀ j, j ≠ i → ∀ x ∈ t.allocator.listHeads j, word _ x = word s.memory x :=
        fun j hj x hx => word_node hstatic hacc' hmem hi hsame (j := j)
          (by simpa [Function.update_of_ne hj] using hx)
      refine ⟨h.lent, congrArg _ h.live, ?_, ?_⟩
      · exact h.lists.update ((hn ▸ h.lists i).pop hnew hrest) fun j hj =>
          List.forall_mem_cons.mpr ⟨word_head hstatic hacc' hmem hi hsame hj, hother j hj⟩
      · refine (h.kept.frame (List.forall_mem_map.mpr fun b hb => ?_)).mono
          (List.map_subset _ (List.subset_append_right _ _))
        refine eqOn_live hstatic hacc' hmem hi hsame ?_
        simpa [h.live] using hb

include hstatic in
lemma Stands.dealloc (h : Stands self s t) (hacc : Accounted memory t)
    (hmem : memory.stop ≤ 2 ^ 64) (hok : (ptr, layout) ∈ t.live) :
    ∃ s' t', s.next self (.dealloc ptr layout) = some s' ∧
      t.next (.dealloc ptr layout) = some t' ∧ Stands self s' t' := by
  -- what is left of what the client has written
  have hkept : Kept ((s.live.erase (ptr, layout)).map region)
      (s.written.forget (region (ptr, layout))) s.memory := by
    refine h.kept.forget (List.forall_mem_map.mpr fun b hb => ?_)
    by_cases hbp : b = (ptr, layout)
    · exact .inl (hbp ▸ rfl)
    · exact .inr (List.mem_map_of_mem ((List.mem_erase_of_ne hbp).mpr hb))
  rcases hi : listIndex layout with _ | i
  · have hpos : 0 < ptr := by
      have := (hacc.lent _ (hacc.blockOf_mem hok)).1
      simpa [blockOf, hi] using this
    exact ⟨_, _, next_dealloc_fallback hi hpos, FixedSizeBlock.next_dealloc_fallback hi hpos,
      by rw [h.lent], by rw [h.live], h.lists, hkept⟩
  · have hnode := node_of_live hacc hok hi
    obtain ⟨hhead, hnew, hsame⟩ := push_spec (m := s.memory)
      (hnode.disjoint_listHead hstatic i) (hnode.lt hmem)
    refine ⟨_, _, next_dealloc_class hi, FixedSizeBlock.next_dealloc_class hi, h.lent,
      by rw [h.live], ?_, ?_⟩
    · exact h.lists.update ((h.lists i).push hnode.pos hhead hnew fun x hx =>
        word_node hstatic hacc hok hi hsame hx) fun j hj =>
          List.forall_mem_cons.mpr ⟨word_head hstatic hacc hok hi hsame hj,
            fun x hx => word_node hstatic hacc hok hi hsame hx⟩
    · exact hkept.frame (List.forall_mem_map.mpr fun b hb =>
        eqOn_live hstatic hacc hok hi hsame (h.live ▸ hb))

lemma Lists.write (h : Lists self m t.allocator.listHeads) (hacc : Accounted memory t) {x : ℕ}
    (hs : x ∉ (static self).bytes)
    (hfree : ∀ i, ∀ n ∈ t.allocator.listHeads i, x ∉ (region (n, classLayout i)).bytes)
    (v : UInt8) : Lists self (Function.update m x v) t.allocator.listHeads :=
  h.congr hacc
    (fun _ hy => (Function.update_of_ne (ne_of_mem_of_not_mem hy hs) v m).symm)
    fun i n hn _ hy => (Function.update_of_ne (ne_of_mem_of_not_mem hy (hfree i n hn)) v m).symm

include hstatic in
lemma Stands.write (h : Stands self s t) (hacc : Accounted memory t) {x : ℕ} (hb : b ∈ t.live)
    (hx : x ∈ (region b).bytes) (v : UInt8) :
    Stands self ⟨Function.update s.memory x v, s.lent, s.live,
      Function.update s.written x (some v)⟩ t := by
  refine ⟨h.lent, h.live, h.lists.write hacc (fun hs => ?_) (fun i n hn hin => ?_) v,
    h.kept.write (List.mem_map_of_mem (h.live ▸ hb)) hx v⟩
  · exact Set.disjoint_left.mp hstatic hs ((live_inside hacc hb).bytes_subset hx)
  · exact Set.disjoint_left.mp (disjoint_free hacc hb hn)
      ((FixedSizeBlock.region_inside b).bytes_subset hx) hin

include hstatic in
lemma Stands.fallback (h : Stands self s t) (hacc : Accounted memory t) {x : ℕ}
    (hx : x ∈ memory.bytes) (hout : ∀ b ∈ t.lent, x ∉ (region b).bytes) (v : UInt8) :
    Stands self ⟨Function.update s.memory x v, s.lent, s.live, s.written⟩ t := by
  refine ⟨h.lent, h.live, h.lists.write hacc (fun hs => ?_) (fun i n hn hin => ?_) v,
    h.kept.frame (List.forall_mem_map.mpr fun b hb y hy => ?_)⟩
  · exact Set.disjoint_left.mp hstatic hs hx
  · exact hout _ (hacc.perm.mem_iff.mpr
      (List.mem_append_right _ (FixedSizeBlock.mem_freeBlocks hn))) hin
  · refine (Function.update_of_ne (fun e => ?_) v s.memory).symm
    exact hout _ (hacc.blockOf_mem (h.live ▸ hb))
      ((FixedSizeBlock.region_inside b).bytes_subset (e ▸ hy))

/-! ### Whole runs -/

include hstatic in
lemma Stands.step (h : Stands self s t) (hacc : Accounted memory t)
    (hmem : memory.stop ≤ 2 ^ 64) {e : Event} (hok : Valid memory s e) :
    ∃ s' t', s.next self e = some s' ∧
      Follows FixedSizeBlock.Heap.next (FixedSizeBlock.Valid memory) t (event e) t' ∧
      Stands self s' t' := by
  cases e with
  | alloc layout heap =>
    have hok' : FixedSizeBlock.Valid memory t (.alloc layout heap) := fun l p hp =>
      h.lent ▸ hok l p hp
    obtain ⟨s', t', hs, ht, h'⟩ := h.alloc hstatic hacc hok'
    exact ⟨s', t', hs, ⟨hok', ht⟩, h'⟩
  | dealloc ptr layout =>
    have hlive : (ptr, layout) ∈ t.live := h.live ▸ hok
    obtain ⟨s', t', hs, ht, h'⟩ := h.dealloc hstatic hacc hmem hlive
    exact ⟨s', t', hs, ⟨hlive, ht⟩, h'⟩
  | write addr value =>
    obtain ⟨b, hb, hx⟩ := hok
    exact ⟨_, t, rfl, rfl, h.write hstatic hacc (h.live ▸ hb) hx value⟩
  | fallback addr value =>
    exact ⟨_, t, rfl, rfl, h.fallback hstatic hacc hok.1 (h.lent ▸ hok.2) value⟩

lemma accounted_initial : Accounted memory .initial := by
  refine ⟨?_, by simp [FixedSizeBlock.Heap.initial], .nil⟩
  simp [FixedSizeBlock.Heap.initial, freeBlocks, FixedSizeBlock.FixedSizeBlockAllocator.new]

lemma stands_initial (m : Memory) : Stands self (.initial self m) .initial := by
  refine ⟨rfl, rfl, fun i => linked_nil.mpr ?_, kept_nothing⟩
  have hzero : Set.EqOn (new self m) (fun _ => 0) (wordAt (listHead self i)).bytes :=
    fun x hx => if_pos (word_listHead_subset i hx)
  exact (word_congr hzero).trans (by simp [word, load])

/-- **The free lists are in memory.** Whatever the client and the fallback heap write to their
own parts of memory between the calls, the lists found there are at every point those of a run
of the allocator on lists, the calls on memory and on lists have the same effect, and every
byte the client has written to an allocation is there until it is written again or given
back. -/
theorem lists_in_memory (hdisj : Disjoint (static self).bytes memory.bytes)
    (hmem : memory.stop ≤ 2 ^ 64)
    (h : Reach (Heap.next self) (Valid memory) (.initial self m) s) :
    ∃ t, Reach FixedSizeBlock.Heap.next (FixedSizeBlock.Valid memory) .initial t ∧
      Stands self s t ∧ ∀ e, Valid memory s e →
        ∃ s' t', s.next self e = some s' ∧
          Follows FixedSizeBlock.Heap.next (FixedSizeBlock.Valid memory) t (event e) t' ∧
          Stands self s' t' := by
  have hinv : ∃ t, Reach FixedSizeBlock.Heap.next (FixedSizeBlock.Valid memory) .initial t ∧
      Accounted memory t ∧ Stands self s t := by
    refine h.simulates (fun s t => Accounted memory t ∧ Stands self s t) event
      ⟨accounted_initial, stands_initial m⟩ ?_
    rintro s t e s' ⟨hacc, hst⟩ hok hs
    obtain ⟨s₁, t', hs₁, hf, hst'⟩ := hst.step hdisj hacc hmem hok
    obtain rfl := Option.some_inj.mp (hs.symm.trans hs₁)
    exact ⟨t', hf, hf.inv hacc fun _ hok' ht => hacc.next hok' ht, hst'⟩
  obtain ⟨t, hr, hacc, hst⟩ := hinv
  exact ⟨t, hr, hst, fun e he => hst.step hdisj hacc hmem he⟩

/-- Eight bytes at address 16, written to, given back and taken again from the list. -/
theorem lists_in_memory_reuse : ∃ s, Reach (Heap.next 8192) (Valid ⟨0, 4096⟩)
    (.initial 8192 fun _ => 0) s ∧ s.live = [(16, classLayout 0)] ∧
      ∃ t, Reach FixedSizeBlock.Heap.next (FixedSizeBlock.Valid ⟨0, 4096⟩) .initial t ∧
        Stands 8192 s t := by
  have hlend : Valid ⟨0, 4096⟩ (.initial 8192 fun _ => 0)
      (.alloc (classLayout 0) fun l => if l = classLayout 0 then some 16 else none) := by
    intro l p hp
    obtain ⟨rfl, hp⟩ := Option.ite_none_right_eq_some.mp hp
    obtain rfl := Option.some_inj.mp hp
    exact ⟨by decide, by decide, by unfold Region.Inside; decide, by simp [Heap.initial]⟩
  have h₁ : Reach (Heap.next 8192) (Valid ⟨0, 4096⟩) (.initial 8192 fun _ => 0) _ :=
    .step .start hlend rfl
  have h₂ := Reach.step (e := Event.write 17 5) h₁
    ⟨(16, classLayout 0), by decide, ⟨by decide, by decide⟩⟩ rfl
  have h₃ := Reach.step (e := Event.dealloc 16 (classLayout 0)) h₂
    (by simp only [Valid]; decide) rfl
  have h₄ := Reach.step (e := Event.alloc (classLayout 0) fun _ => none) h₃
    (by intro l p hp; cases hp) rfl
  obtain ⟨t, ht, hst, -⟩ := lists_in_memory
    (by rw [Region.disjoint_iff]; decide) (by decide) h₄
  exact ⟨_, h₄, by decide, t, ht, hst⟩

end RustyOs.BlockMemory
