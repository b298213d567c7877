import RustyOs.Allocator
import RustyOs.Machine
import RustyOs.Regions

/-!
The linked-list allocator (`src/allocator/linked_list.rs`).

Each free region holds a node with its size and the reference to the next one. The references
own each other, so the list is the sequence of its regions, the node of a region standing at its
start. A call that would panic gives nothing; a null pointer is `none`.
-/

namespace RustyOs.LinkedList

open RustyOs.Allocator RustyOs.Machine RustyOs.Regions

/-- The size and the alignment of a node. -/
def nodeSize : ℕ := 16
def nodeAlign : ℕ := 8

structure LinkedListAllocator where
  regions : List Region

def LinkedListAllocator.new : LinkedListAllocator := ⟨[]⟩

section calls

variable (a : LinkedListAllocator)

/-- `add_free_region`; both assertions must hold. -/
def addFreeRegion (addr size : ℕ) : Option LinkedListAllocator :=
  if alignUp addr nodeAlign = some addr ∧ nodeSize ≤ size then
    some ⟨⟨addr, size⟩ :: a.regions⟩
  else none

def endAddr (region : Region) : Option ℕ := checkedAdd region.start region.size

/-- `alloc_from_region`: the start of the allocation, if it fits. -/
def allocFromRegion (region : Region) (size align : ℕ) : Option (Option ℕ) := do
  let allocStart ← alignUp region.start align
  match checkedAdd allocStart size with
  | none => some none
  | some allocEnd =>
    let regionEnd ← endAddr region
    if regionEnd < allocEnd then some none
    else
      let excessSize := regionEnd - allocEnd
      if 0 < excessSize ∧ excessSize < nodeSize then some none else some (some allocStart)

/-- `find_region`: the first region that fits, the start of the allocation, and the list without
the region. -/
def findRegion (size align : ℕ) : List Region → Option (Option (Region × ℕ × List Region))
  | [] => some none
  | r :: rs => do
    match ← allocFromRegion r size align with
    | some allocStart => some (some (r, allocStart, rs))
    | none =>
      let found ← findRegion size align rs
      some (found.map fun f => (f.1, f.2.1, r :: f.2.2))

/-- `size_align`; the adjustment of the alignment may fail. -/
def sizeAlign (layout : Layout) : Option (ℕ × ℕ) :=
  (layout.alignTo nodeAlign ⟨3, rfl⟩).map fun l =>
    (max l.padToAlign.size nodeSize, l.padToAlign.align)

def alloc (layout : Layout) : Option (LinkedListAllocator × Option ℕ) := do
  let (size, align) ← sizeAlign layout
  match ← findRegion size align a.regions with
  | some (region, allocStart, rest) =>
    let allocEnd ← checkedAdd allocStart size
    let regionEnd ← endAddr region
    if regionEnd < allocEnd then none
    else
      let excessiveSize := regionEnd - allocEnd
      let a ← if 0 < excessiveSize then addFreeRegion ⟨rest⟩ allocEnd excessiveSize else some ⟨rest⟩
      some (a, some allocStart)
  | none => some (a, none)

def dealloc (ptr : ℕ) (layout : Layout) : Option LinkedListAllocator := do
  let (size, _) ← sizeAlign layout
  addFreeRegion a ptr size

end calls

/-- `init` of a new allocator. -/
def init (heapStart heapSize : ℕ) : Option LinkedListAllocator :=
  addFreeRegion .new heapStart heapSize

/-! ### The steps of a call -/

lemma sizeAlign_spec {l : Layout} {size align : ℕ} (h : sizeAlign l = some (size, align)) :
    (l.size ≤ size ∧ nodeSize ≤ size ∧ nodeAlign ∣ size) ∧
      (l.align ∣ align ∧ nodeAlign ∣ align ∧ 0 < align ∧ align ≤ 2 ^ 63) := by
  obtain ⟨l', hl', he⟩ := Option.map_eq_some_iff.mp h
  obtain ⟨rfl, rfl⟩ := Prod.mk.inj he
  obtain ⟨hsize, halign⟩ := Layout.alignTo_eq_some hl'
  obtain ⟨hpad, hle⟩ := l'.padToAlign_size
  have hnode : nodeAlign ∣ l'.align :=
    pow_dvd_of_le ⟨3, rfl⟩ l'.pow (halign ▸ le_max_right _ _)
  refine ⟨⟨?_, le_max_right _ _, ?_⟩, ?_, hnode, l'.align_pos, l'.align_le⟩
  · exact hsize ▸ hle.trans (le_max_left _ _)
  · rcases max_choice l'.padToAlign.size nodeSize with e | e <;> rw [e]
    · exact hnode.trans hpad
    · decide
  · exact pow_dvd_of_le l.pow l'.pow (halign ▸ le_max_left _ _)

lemma endAddr_of_le {r : Region} (h : r.stop ≤ 2 ^ 63) : endAddr r = some r.stop :=
  checkedAdd_eq_some.mpr ⟨by unfold Region.stop at h; omega, rfl⟩

/-- The allocation fits if it ends with the region, or far enough before its end for a node. -/
def Fits (r : Region) (size start : ℕ) : Prop :=
  start + size ≤ r.stop ∧ (start + size = r.stop ∨ nodeSize ≤ r.stop - (start + size))

instance (r : Region) (size start : ℕ) : Decidable (Fits r size start) :=
  inferInstanceAs (Decidable (_ ∧ _))

lemma allocFromRegion_eq {r : Region} {size align start : ℕ} (hr : r.stop ≤ 2 ^ 63)
    (h : alignUp r.start align = some start) :
    allocFromRegion r size align = some (if Fits r size start then some start else none) := by
  simp only [allocFromRegion, h, endAddr_of_le hr, Option.bind_eq_bind, Option.bind_some]
  rcases hadd : checkedAdd start size with _ | e
  · have hover : ¬ Fits r size start := by
      rintro ⟨hle, -⟩
      unfold checkedAdd at hadd
      split_ifs at hadd
      omega
    rw [if_neg hover]
  · obtain ⟨-, rfl⟩ := checkedAdd_eq_some.mp hadd
    simp only
    by_cases hlt : r.stop < start + size
    · rw [if_pos hlt, if_neg fun hf => absurd hf.1 (by omega)]
    · rw [if_neg hlt]
      by_cases hex : 0 < r.stop - (start + size) ∧ r.stop - (start + size) < nodeSize
      · rw [if_pos hex, if_neg fun hf => absurd hf.2 (by omega)]
      · rw [if_neg hex, if_pos ⟨by omega, by omega⟩]

lemma allocFromRegion_spec {r : Region} {size align start : ℕ} (hr : r.stop ≤ 2 ^ 63)
    (h : allocFromRegion r size align = some (some start)) :
    r.start ≤ start ∧ align ∣ start ∧ Fits r size start := by
  obtain ⟨a, ha, -⟩ := Option.bind_eq_some_iff.mp h
  rw [allocFromRegion_eq hr ha] at h
  obtain ⟨hfits, he⟩ := Option.ite_none_right_eq_some.mp (Option.some_inj.mp h)
  obtain rfl := Option.some_inj.mp he
  exact ⟨(alignUp_spec ha).1, (alignUp_spec ha).2, hfits⟩

lemma exists_allocFromRegion {r : Region} {align : ℕ} (size : ℕ) (hr : r.stop ≤ 2 ^ 63)
    (hpos : 0 < r.size) (ha : 0 < align) (hl : align ≤ 2 ^ 63) :
    ∃ o, allocFromRegion r size align = some o := by
  have hlt : r.start < 2 ^ 63 := by unfold Region.stop at hr; omega
  obtain ⟨a, hup⟩ := exists_alignUp ha hlt hl
  exact ⟨_, allocFromRegion_eq hr hup⟩

section find

variable {size align : ℕ} {rs : List Region}

lemma findRegion_split {r : Region} {start : ℕ} {rest : List Region}
    (h : findRegion size align rs = some (some (r, start, rest))) :
    ∃ pre post, rs = pre ++ r :: post ∧ rest = pre ++ post ∧
      (∀ q ∈ pre, allocFromRegion q size align = some none) ∧
      allocFromRegion r size align = some (some start) := by
  induction rs generalizing rest with
  | nil => cases h
  | cons x xs ih =>
    rw [findRegion] at h
    obtain ⟨o, ho, h⟩ := Option.bind_eq_some_iff.mp h
    cases o with
    | some a =>
      simp only [Option.some.injEq, Prod.mk.injEq] at h
      obtain ⟨rfl, rfl, rfl⟩ := h
      exact ⟨[], xs, rfl, rfl, by simp, ho⟩
    | none =>
      obtain ⟨f, hf, h⟩ := Option.bind_eq_some_iff.mp h
      obtain ⟨⟨r', a', rest'⟩, hf', h⟩ := Option.map_eq_some_iff.mp (Option.some_inj.mp h)
      simp only [Prod.mk.injEq] at h
      obtain ⟨rfl, rfl, rfl⟩ := h
      rw [hf'] at hf
      obtain ⟨pre, post, rfl, rfl, hpre, hr⟩ := ih hf
      exact ⟨x :: pre, post, rfl, rfl, List.forall_mem_cons.mpr ⟨ho, hpre⟩, hr⟩

lemma findRegion_some {r : Region} {start : ℕ} {rest : List Region}
    (h : findRegion size align rs = some (some (r, start, rest))) :
    rs.Perm (r :: rest) ∧ allocFromRegion r size align = some (some start) := by
  obtain ⟨pre, post, rfl, rfl, -, hr⟩ := findRegion_split h
  exact ⟨List.perm_middle, hr⟩

lemma findRegion_none (h : findRegion size align rs = some none) :
    ∀ r ∈ rs, allocFromRegion r size align = some none := by
  induction rs with
  | nil => simp
  | cons x xs ih =>
    rw [findRegion] at h
    obtain ⟨o, ho, h⟩ := Option.bind_eq_some_iff.mp h
    cases o with
    | some a => cases h
    | none =>
      obtain ⟨f, hf, h⟩ := Option.bind_eq_some_iff.mp h
      have hf' : f = none := Option.map_eq_none_iff.mp (Option.some_inj.mp h)
      exact List.forall_mem_cons.mpr ⟨ho, ih (hf' ▸ hf)⟩

lemma exists_findRegion (h : ∀ r ∈ rs, ∃ o, allocFromRegion r size align = some o) :
    ∃ o, findRegion size align rs = some o := by
  induction rs with
  | nil => exact ⟨_, rfl⟩
  | cons x xs ih =>
    obtain ⟨⟨o, ho⟩, hxs⟩ := List.forall_mem_cons.mp h
    obtain ⟨f, hf⟩ := ih hxs
    rw [findRegion, ho]
    cases o with
    | some a => exact ⟨_, rfl⟩
    | none =>
      refine ⟨f.map fun f => (f.1, f.2.1, x :: f.2.2), ?_⟩
      simp only [hf, Option.bind_eq_bind, Option.bind_some]

end find

/-! ### Runs -/

/-- The allocator and the allocations of the client. -/
structure Heap where
  allocator : LinkedListAllocator
  live : List (ℕ × Layout)

inductive Event
  | alloc (layout : Layout)
  | dealloc (ptr : ℕ) (layout : Layout)

def Heap.next (s : Heap) : Event → Option Heap
  | .alloc layout => (alloc s.allocator layout).map fun r =>
      ⟨r.1, (r.2.map fun p => (p, layout)).toList ++ s.live⟩
  | .dealloc ptr layout => (dealloc s.allocator ptr layout).map fun a =>
      ⟨a, s.live.erase (ptr, layout)⟩

/-- The layout can be adjusted, and the client gives back what it was given. -/
def Valid (s : Heap) : Event → Prop
  | .alloc layout => (sizeAlign layout).isSome
  | .dealloc ptr layout => (ptr, layout) ∈ s.live

/-- The block of an allocation. -/
def block (b : ℕ × Layout) : Region := ⟨b.1, ((sizeAlign b.2).map Prod.fst).getD 0⟩

lemma block_eq {b : ℕ × Layout} {size align : ℕ} (h : sizeAlign b.2 = some (size, align)) :
    block b = ⟨b.1, size⟩ := by
  rw [block, h]
  rfl

/-- The free regions can hold their nodes, the allocations lie aligned in blocks of the size
asked for, and no two of all these overlap. -/
structure Safe (memory : Region) (s : Heap) : Prop where
  region : ∀ r ∈ s.allocator.regions, nodeAlign ∣ r.start ∧ nodeSize ≤ r.size ∧ r.Inside memory
  live : ∀ b ∈ s.live, ∃ size align, sizeAlign b.2 = some (size, align) ∧ align ∣ b.1 ∧
    (block b).Inside memory
  separate : Separate (s.allocator.regions ++ s.live.map block)

/-- No node and no allocation is at address 0, so that an answer of `alloc` that is not null is
not the null pointer either. -/
def NonNull (s : Heap) : Prop :=
  (∀ r ∈ s.allocator.regions, 0 < r.start) ∧ ∀ b ∈ s.live, 0 < b.1

variable {memory : Region} {s s' : Heap} {e : Event}

lemma Safe.nonNull (h : Safe memory s) (hpos : 0 < memory.start) : NonNull s := by
  refine ⟨fun r hr => hpos.trans_le (h.region r hr).2.2.1, fun b hb => ?_⟩
  obtain ⟨-, -, -, -, hin⟩ := h.live b hb
  exact hpos.trans_le hin.1

lemma addFreeRegion_eq {a : LinkedListAllocator} {addr size : ℕ} (ha : nodeAlign ∣ addr)
    (hs : nodeSize ≤ size) : addFreeRegion a addr size = some ⟨⟨addr, size⟩ :: a.regions⟩ :=
  if_pos ⟨alignUp_of_dvd (by decide) ha, hs⟩

/-- What a call of `alloc` does on a safe heap: it refuses when no region fits, or takes a region
from the list, and gives back to it what is left behind the allocation. -/
lemma Safe.alloc_cases (h : Safe memory s) (hmem : memory.stop ≤ 2 ^ 63) {layout : Layout}
    {size align : ℕ} (hsa : sizeAlign layout = some (size, align)) :
    (alloc s.allocator layout = some (s.allocator, none) ∧
        ∀ r ∈ s.allocator.regions, allocFromRegion r size align = some none) ∨
      ∃ r start rest, s.allocator.regions.Perm (r :: rest) ∧ r.start ≤ start ∧ align ∣ start ∧
        ((start + size = r.stop ∧ alloc s.allocator layout = some (⟨rest⟩, some start)) ∨
          (nodeSize ≤ r.stop - (start + size) ∧ alloc s.allocator layout =
            some (⟨⟨start + size, r.stop - (start + size)⟩ :: rest⟩, some start))) := by
  obtain ⟨⟨-, -, hsize8⟩, -, halign8, hpos, hle⟩ := sizeAlign_spec hsa
  have hstop : ∀ r ∈ s.allocator.regions, r.stop ≤ 2 ^ 63 := fun r hr =>
    (h.region r hr).2.2.2.trans hmem
  have htry : ∀ r ∈ s.allocator.regions, ∃ o, allocFromRegion r size align = some o :=
    fun r hr => exists_allocFromRegion size (hstop r hr)
      ((by decide : 0 < nodeSize).trans_le (h.region r hr).2.1) hpos hle
  obtain ⟨o, ho⟩ := exists_findRegion htry
  rcases o with _ | ⟨r, start, rest⟩
  · refine .inl ⟨?_, findRegion_none ho⟩
    simp only [alloc, hsa, ho, Option.bind_eq_bind, Option.bind_some]
  · obtain ⟨hperm, hfrom⟩ := findRegion_some ho
    have hr : r ∈ s.allocator.regions := hperm.mem_iff.mpr (by simp)
    obtain ⟨hge, hdvd, hfit, hend⟩ := allocFromRegion_spec (hstop r hr) hfrom
    have hle := hstop r hr
    have hadd : checkedAdd start size = some (start + size) :=
      checkedAdd_eq_some.mpr ⟨by omega, rfl⟩
    refine .inr ⟨r, start, rest, hperm, hge, hdvd, ?_⟩
    simp only [alloc, hsa, ho, hadd, endAddr_of_le hle, Option.bind_eq_bind, Option.bind_some,
      if_neg (not_lt.mpr hfit)]
    rcases hend with heq | hge
    · refine .inl ⟨heq, ?_⟩
      rw [if_neg (by omega)]
    · have h8 : nodeAlign ∣ start + size := dvd_add (halign8.trans hdvd) hsize8
      have hpos : 0 < r.stop - (start + size) := (by decide : 0 < nodeSize).trans_le hge
      refine .inr ⟨hge, ?_⟩
      rw [if_pos hpos, addFreeRegion_eq h8 hge]
      rfl

lemma Safe.give (h : Safe memory s) {free : List Region} {layout : Layout} {size align start : ℕ}
    (hfree : ∀ r ∈ free, nodeAlign ∣ r.start ∧ nodeSize ≤ r.size ∧ r.Inside memory)
    (hsa : sizeAlign layout = some (size, align)) (hdvd : align ∣ start)
    (hin : (Region.mk start size).Inside memory)
    (hsep : Separate (⟨start, size⟩ :: (free ++ s.live.map block))) :
    Safe memory ⟨⟨free⟩, (start, layout) :: s.live⟩ := by
  have hb : block (start, layout) = ⟨start, size⟩ := block_eq hsa
  refine ⟨hfree, List.forall_mem_cons.mpr ⟨⟨size, align, hsa, hdvd, hb ▸ hin⟩, h.live⟩, ?_⟩
  rw [List.map_cons, hb]
  exact hsep.perm List.perm_middle.symm

lemma Safe.alloc (h : Safe memory s) (hmem : memory.stop ≤ 2 ^ 63) {layout : Layout}
    (hok : Valid s (.alloc layout)) :
    ∃ s', s.next (.alloc layout) = some s' ∧ Safe memory s' := by
  obtain ⟨⟨size, align⟩, hsa⟩ := Option.isSome_iff_exists.mp hok
  rcases h.alloc_cases hmem hsa with ⟨he, -⟩ | ⟨r, start, rest, hperm, hge, hdvd, hcase⟩
  · refine ⟨s, ?_, h⟩
    rw [Heap.next, he]
    rfl
  · obtain ⟨⟨-, -, hrin⟩, hrest⟩ := List.forall_mem_cons.mp fun x hx =>
      h.region x (hperm.mem_iff.mpr hx)
    have hsep : Separate (r :: (rest ++ s.live.map block)) :=
      h.separate.perm (hperm.append_right _)
    rcases hcase with ⟨hend, he⟩ | ⟨hexcess, he⟩
    · have hblk : (Region.mk start size).Inside r := ⟨hge, hend.le⟩
      refine ⟨_, by rw [Heap.next, he]; rfl, ?_⟩
      exact h.give hrest hsa hdvd (hblk.trans hrin) (hsep.shrink hblk)
    · have hblk : (Region.mk start size).Inside r := ⟨hge, by
        simp only [Region.stop, nodeSize] at hexcess ⊢; omega⟩
      have hrem : (Region.mk (start + size) (r.stop - (start + size))).Inside r := by
        simp only [Region.Inside, Region.stop, nodeSize] at hexcess ⊢
        omega
      obtain ⟨⟨-, -, hsize8⟩, -, halign8, -, -⟩ := sizeAlign_spec hsa
      refine ⟨_, by rw [Heap.next, he]; rfl, ?_⟩
      refine h.give (List.forall_mem_cons.mpr ⟨⟨?_, hexcess, hrem.trans hrin⟩, hrest⟩) hsa hdvd
        (hblk.trans hrin) (hsep.split hblk hrem (le_refl _))
      exact dvd_add (halign8.trans hdvd) hsize8

lemma Safe.dealloc (h : Safe memory s) {ptr : ℕ} {layout : Layout}
    (hok : (ptr, layout) ∈ s.live) :
    ∃ s', s.next (.dealloc ptr layout) = some s' ∧ Safe memory s' := by
  obtain ⟨size, align, hsa, hdvd, hin⟩ := h.live _ hok
  obtain ⟨⟨-, h16, -⟩, -, halign8, -, -⟩ := sizeAlign_spec hsa
  rw [block_eq hsa] at hin
  have he : s.next (.dealloc ptr layout) =
      some ⟨⟨⟨ptr, size⟩ :: s.allocator.regions⟩, s.live.erase (ptr, layout)⟩ := by
    simp only [Heap.next, LinkedList.dealloc, hsa, Option.bind_eq_bind, Option.bind_some,
      addFreeRegion_eq (halign8.trans hdvd) h16, Option.map_some]
  refine ⟨_, he, List.forall_mem_cons.mpr ⟨⟨halign8.trans hdvd, h16, hin⟩, h.region⟩,
    fun b hb => h.live b (List.mem_of_mem_erase hb), ?_⟩
  -- the block only changes hands
  have hperm := ((List.perm_cons_erase hok).map block).append_left s.allocator.regions
  rw [List.map_cons, block_eq hsa] at hperm
  exact h.separate.perm (hperm.trans List.perm_middle)

lemma Safe.total (h : Safe memory s) (hmem : memory.stop ≤ 2 ^ 63) (hok : Valid s e) :
    ∃ s', s.next e = some s' ∧ Safe memory s' := by
  cases e with
  | alloc layout => exact h.alloc hmem hok
  | dealloc ptr layout => exact h.dealloc hok

lemma Safe.next (h : Safe memory s) (hmem : memory.stop ≤ 2 ^ 63) (hok : Valid s e)
    (hs : s.next e = some s') : Safe memory s' := by
  obtain ⟨t, ht, hsafe⟩ := h.total hmem hok
  rw [ht] at hs
  exact Option.some_inj.mp hs ▸ hsafe

/-- What `alloc` may answer: a null pointer when no region fits, or an aligned block of the heap
that is large enough. -/
def Answers (memory : Region) (a : LinkedListAllocator) (layout : Layout) (size align : ℕ) :
    Option ℕ → Prop
  | none => ∀ r ∈ a.regions, allocFromRegion r size align = some none
  | some p => layout.align ∣ p ∧ layout.size ≤ size ∧ (Region.mk p size).Inside memory

lemma Safe.answers (h : Safe memory s) (hmem : memory.stop ≤ 2 ^ 63) {layout : Layout}
    {size align : ℕ} (hsa : sizeAlign layout = some (size, align)) :
    ∃ a p, LinkedList.alloc s.allocator layout = some (a, p) ∧
      Answers memory s.allocator layout size align p := by
  rcases h.alloc_cases hmem hsa with ⟨he, hnone⟩ | ⟨r, start, rest, hperm, hge, hdvd, hcase⟩
  · exact ⟨_, none, he, hnone⟩
  · obtain ⟨-, -, hrin⟩ := h.region r (hperm.mem_iff.mpr (by simp))
    obtain ⟨⟨hsize, -, -⟩, halign, -, -, -⟩ := sizeAlign_spec hsa
    have hblk : (Region.mk start size).Inside r := by
      refine ⟨hge, ?_⟩
      simp only [Region.stop, nodeSize] at hcase ⊢
      omega
    have hans : Answers memory s.allocator layout size align (some start) :=
      ⟨halign.trans hdvd, hsize, hblk.trans hrin⟩
    rcases hcase with ⟨-, he⟩ | ⟨-, he⟩
    · exact ⟨_, some start, he, hans⟩
    · exact ⟨_, some start, he, hans⟩

lemma reach_safe {start size : ℕ} {a : LinkedListAllocator} (hinit : init start size = some a)
    (hend : start + size ≤ 2 ^ 63) (hs : Reach Heap.next Valid ⟨a, []⟩ s) :
    Safe ⟨start, size⟩ s := by
  obtain ⟨⟨halign, hsize⟩, ha⟩ := Option.ite_none_right_eq_some.mp hinit
  obtain rfl := Option.some_inj.mp ha
  refine hs.inv ⟨?_, by simp, ?_⟩ fun _ _ _ h hok hn => h.next hend hok hn
  · simp only [LinkedListAllocator.new, List.forall_mem_singleton]
    exact ⟨(alignUp_spec halign).2, hsize, le_refl _, le_refl _⟩
  · exact List.pairwise_singleton _ _

/-- **Heap safety of the linked-list allocator.** After `init` of an aligned piece of the lower
half of memory, along every run in which the client gives back what it was given, the heap is
safe and no call panics; `alloc` answers with a block as asked for, or with null when no free
region fits. The heap of a machine has 0 < `start`: at 0 the first node would be written through
the null pointer. -/
theorem linkedList_safe {start size : ℕ} (halign : 8 ∣ start) (hsize : 16 ≤ size)
    (hend : start + size ≤ 2 ^ 63) :
    ∃ a, init start size = some a ∧ ∀ s, Reach Heap.next Valid ⟨a, []⟩ s →
      Safe ⟨start, size⟩ s ∧ (0 < start → NonNull s) ∧
      (∀ e, Valid s e → ∃ s', s.next e = some s') ∧
      ∀ layout n align, sizeAlign layout = some (n, align) →
        ∃ a' p, LinkedList.alloc s.allocator layout = some (a', p) ∧
          Answers ⟨start, size⟩ s.allocator layout n align p := by
  have hmem : (Region.mk start size).stop ≤ 2 ^ 63 := hend
  refine ⟨_, addFreeRegion_eq halign hsize, fun s hs => ?_⟩
  have hsafe := reach_safe (addFreeRegion_eq halign hsize) hend hs
  refine ⟨hsafe, hsafe.nonNull, fun e he => ?_, fun layout n align hsa => hsafe.answers hmem hsa⟩
  obtain ⟨s', hn, -⟩ := hsafe.total hmem he
  exact ⟨s', hn⟩

/-- On the heap of the kernel, 24 bytes leave a free region behind them. -/
theorem linkedList_safe_kernel : ∃ a s, init heapStart heapSize = some a ∧
    Reach Heap.next Valid ⟨a, []⟩ s ∧ s.live.map block = [⟨heapStart, 24⟩] ∧
      Safe ⟨heapStart, heapSize⟩ s ∧ NonNull s := by
  obtain ⟨a, ha, hrun⟩ := linkedList_safe (by decide : 8 ∣ heapStart) (by decide : 16 ≤ heapSize)
    (by decide)
  obtain rfl : ⟨[⟨heapStart, heapSize⟩]⟩ = a := Option.some_inj.mp ha
  have h : Reach Heap.next Valid ⟨⟨[⟨heapStart, heapSize⟩]⟩, []⟩ _ :=
    .step (e := Event.alloc ⟨24, 8, ⟨3, rfl⟩, by decide⟩) .start rfl rfl
  obtain ⟨hsafe, hnull, -⟩ := hrun _ h
  exact ⟨_, _, ha, h, by decide +kernel, hsafe, hnull (by decide)⟩

end RustyOs.LinkedList
