import RustyOs.LinkedListAccount

/-!
What the linked-list allocator answers: reuse of a block that was given back, and requests at
the top of the range of sizes.

A block that is given back stands in front of the free list, at a multiple of every alignment
it was asked for with, and it fits exactly. So the next request of its size and alignment takes
it, whatever else is on the list.

The size and the alignment of a request are first adjusted to those of a node. The adjustment
of a layout of small alignment can leave the range of sizes that layouts have; `size_align` then
panics. For all other layouts nothing overflows in a heap in the lower half of memory.
-/

namespace RustyOs.LinkedListReuse

open RustyOs.Allocator RustyOs.Machine RustyOs.Regions RustyOs.LinkedList
  RustyOs.LinkedListAccount

variable {size align p : ℕ} {l l' : Layout}

/-! ### Giving back and asking again -/

lemma allocFromRegion_exact (hpos : 0 < align) (hdvd : align ∣ p) (hlt : p + size < 2 ^ 64) :
    allocFromRegion ⟨p, size⟩ size align = some (some p) := by
  have hend : checkedAdd p size = some (p + size) := checkedAdd_eq_some.mpr ⟨hlt, rfl⟩
  simp only [allocFromRegion, endAddr, alignUp_of_dvd hpos hdvd, hend, Option.bind_eq_bind,
    Option.bind_some, lt_irrefl, Nat.sub_self, false_and, if_false]

lemma alloc_exact {rs : List Region} (hsa : sizeAlign l = some (size, align)) (hdvd : align ∣ p)
    (hlt : p + size < 2 ^ 64) : alloc ⟨⟨p, size⟩ :: rs⟩ l = some (⟨rs⟩, some p) := by
  have hpos : 0 < align := (sizeAlign_spec hsa).2.2.2.1
  have hend : checkedAdd p size = some (p + size) := checkedAdd_eq_some.mpr ⟨hlt, rfl⟩
  have hfind : findRegion size align (⟨p, size⟩ :: rs) = some (some (⟨p, size⟩, p, rs)) := by
    simp only [findRegion, allocFromRegion_exact hpos hdvd hlt, Option.bind_eq_bind,
      Option.bind_some]
  simp only [alloc, hsa, hfind, endAddr, hend, Option.bind_eq_bind, Option.bind_some, lt_irrefl,
    if_false, Nat.sub_self]

lemma alloc_pointer {a a₁ : LinkedListAllocator} (hsa : sizeAlign l = some (size, align))
    (h : alloc a l = some (a₁, some p)) : align ∣ p ∧ p + size < 2 ^ 64 := by
  rcases alloc_account hsa h with
    ⟨-, hp, -⟩ | ⟨pre, r, post, start, -, -, ⟨start', htakes⟩, hup, hp, -, -⟩
  · cases hp
  · obtain rfl := Option.some.inj hp
    obtain ⟨hup', hlt, hfit⟩ := allocFromRegion_fits htakes
    obtain rfl := Option.some.inj (hup.symm.trans hup')
    exact ⟨(alignUp_spec hup).2, by omega⟩

/-- Allocations of the layouts, each given back before the next; a null pointer ends them. -/
def cycles (a : LinkedListAllocator) : List Layout → Option LinkedListAllocator
  | [] => some a
  | layout :: layouts => do
    let (a₁, ptr) ← alloc a layout
    let a₂ ← dealloc a₁ (← ptr) layout
    cycles a₂ layouts

lemma dealloc_eq {a : LinkedListAllocator} (hsa : sizeAlign l = some (size, align))
    (hdvd : align ∣ p) : dealloc a p l = some ⟨⟨p, size⟩ :: a.regions⟩ := by
  obtain ⟨⟨-, hsize, -⟩, -, halign, -, -⟩ := sizeAlign_spec hsa
  simp only [dealloc, hsa, Option.bind_eq_bind, Option.bind_some,
    addFreeRegion_eq (halign.trans hdvd) hsize]

lemma cycles_exact {rs : List Region} {layouts : List Layout} (hdvd : align ∣ p)
    (hlt : p + size < 2 ^ 64) (hls : ∀ x ∈ layouts, sizeAlign x = some (size, align)) :
    cycles ⟨⟨p, size⟩ :: rs⟩ layouts = some ⟨⟨p, size⟩ :: rs⟩ := by
  induction layouts with
  | nil => rfl
  | cons x xs ih =>
    obtain ⟨hx, hxs⟩ := List.forall_mem_cons.mp hls
    simp only [cycles, alloc_exact hx hdvd hlt, dealloc_eq hx hdvd, Option.bind_eq_bind,
      Option.bind_some, ih hxs]

/-- **Freed memory is reused at once.** On any free list: an allocation that is given back is
what the next request of the same adjusted size and alignment gets, and the list is then as it
was. Any number of further such cycles succeeds and leaves the list unchanged. -/
theorem freed_is_reused {a a₁ : LinkedListAllocator} (hsame : sizeAlign l = sizeAlign l')
    (h : alloc a l = some (a₁, some p)) :
    ∃ a₂, dealloc a₁ p l = some a₂ ∧ alloc a₂ l' = some (a₁, some p) ∧
      ∀ layouts : List Layout, (∀ x ∈ layouts, sizeAlign x = sizeAlign l) →
        cycles a₂ layouts = some a₂ := by
  obtain ⟨⟨size, align⟩, hsa, -⟩ := Option.bind_eq_some_iff.mp h
  obtain ⟨hdvd, hlt⟩ := alloc_pointer hsa h
  refine ⟨_, dealloc_eq hsa hdvd, ?_, fun layouts hls => ?_⟩
  · exact alloc_exact (hsame ▸ hsa) hdvd hlt
  · exact cycles_exact hdvd hlt fun x hx => (hls x hx).trans hsa

/-- Both layouts are adjusted to 24 bytes at alignment 8. -/
def twenty : Layout := ⟨20, 4, ⟨2, rfl⟩, by decide⟩
def twentyTwo : Layout := ⟨22, 2, ⟨1, rfl⟩, by decide⟩

/-- The free list is that of the kernel's heap after an allocation of 16 bytes. -/
theorem freed_is_reused_kernel :
    ∃ a₂, alloc ⟨[⟨heapStart + 16, heapSize - 16⟩]⟩ twenty =
        some (⟨[⟨heapStart + 40, heapSize - 40⟩]⟩, some (heapStart + 16)) ∧
      dealloc ⟨[⟨heapStart + 40, heapSize - 40⟩]⟩ (heapStart + 16) twenty = some a₂ ∧
      alloc a₂ twentyTwo = some (⟨[⟨heapStart + 40, heapSize - 40⟩]⟩, some (heapStart + 16)) ∧
      cycles a₂ [twentyTwo, twenty, twentyTwo] = some a₂ := by
  have h : alloc ⟨[⟨heapStart + 16, heapSize - 16⟩]⟩ twenty =
      some (⟨[⟨heapStart + 40, heapSize - 40⟩]⟩, some (heapStart + 16)) := rfl
  have hsame : sizeAlign twenty = sizeAlign twentyTwo := by decide +kernel
  obtain ⟨a₂, hd, ha, hc⟩ := freed_is_reused hsame h
  refine ⟨a₂, h, hd, ha, hc _ ?_⟩
  simp only [List.forall_mem_cons, hsame]
  simp

/-! ### The largest requests -/

lemma sizeAlign_isSome_iff : (sizeAlign l).isSome ↔ l.size + max l.align nodeAlign ≤ 2 ^ 63 := by
  rw [sizeAlign, Option.isSome_map, Layout.alignTo]
  split_ifs with h
  · exact iff_of_true rfl h
  · exact iff_of_false Bool.false_ne_true h

lemma sizeAlign_range (hsa : sizeAlign l = some (size, align)) :
    size < 2 ^ 63 ∧ align ∣ 2 ^ 63 := by
  obtain ⟨l', -, he⟩ := Option.map_eq_some_iff.mp hsa
  obtain ⟨rfl, rfl⟩ := Prod.mk.inj he
  refine ⟨max_lt ?_ (by decide), pow_dvd_of_le l'.pow ⟨63, rfl⟩ l'.align_le⟩
  calc l'.padToAlign.size < l'.padToAlign.size + l'.padToAlign.align :=
        Nat.lt_add_of_pos_right l'.padToAlign.align_pos
    _ ≤ 2 ^ 63 := l'.padToAlign.fits

lemma reach_valid {s₀ s : Heap} (h : Reach Heap.next GivesBack s₀ s) :
    Reach Heap.next Valid s₀ s := by
  induction h with
  | start => exact .start
  | @step s s' e _ hok hs ih =>
    refine ih.step ?_ hs
    cases e with
    | alloc layout =>
      obtain ⟨r, hr, -⟩ := Option.map_eq_some_iff.mp hs
      obtain ⟨sa, hsa, -⟩ := Option.bind_eq_some_iff.mp hr
      exact Option.isSome_iff_exists.mpr ⟨sa, hsa⟩
    | dealloc ptr layout => exact hok

lemma exists_allocEnd {r : Region} (hsa : sizeAlign l = some (size, align)) (hpos : 0 < r.size)
    (hr : r.stop ≤ 2 ^ 63) :
    ∃ allocStart allocEnd, alignUp r.start align = some allocStart ∧
      checkedAdd allocStart size = some allocEnd := by
  obtain ⟨-, -, -, halign, hle⟩ := sizeAlign_spec hsa
  have hstart : r.start < 2 ^ 63 := by unfold Region.stop at hr; omega
  obtain ⟨p, hp⟩ := exists_alignUp halign hstart hle
  refine ⟨p, p + size, hp, checkedAdd_eq_some.mpr ⟨?_, rfl⟩⟩
  obtain ⟨hsize, hhalf⟩ := sizeAlign_range hsa
  have hp63 : p ≤ 2 ^ 63 := alignUp_le hp hhalf hstart.le
  omega

/-- **When a request panics.** In every state that a heap in the lower half of memory comes to,
`alloc` returns for every layout whose size, rounded up to the larger of its alignment and that
of a node, is in range: nothing overflows, and the answer is an aligned block of the heap, or
null when no free region fits. For every other layout the adjustment panics. With 0 < `start`, as on
a machine, the block is not at the null address. -/
theorem alloc_returns {start n : ℕ} {a : LinkedListAllocator} {s : Heap}
    (hinit : init start n = some a) (hend : start + n ≤ 2 ^ 63)
    (hs : Reach Heap.next GivesBack ⟨a, []⟩ s) (layout : Layout) :
    (layout.size + max layout.align 8 ≤ 2 ^ 63 →
      ∃ size align, sizeAlign layout = some (size, align) ∧
        (∀ r ∈ s.allocator.regions, ∃ allocStart allocEnd,
          alignUp r.start align = some allocStart ∧
            checkedAdd allocStart size = some allocEnd) ∧
        ∃ a' p, alloc s.allocator layout = some (a', p) ∧
          Answers ⟨start, n⟩ s.allocator layout size align p ∧ (0 < start → p ≠ some 0)) ∧
      (2 ^ 63 < layout.size + max layout.align 8 →
        sizeAlign layout = none ∧ alloc s.allocator layout = none) := by
  refine ⟨fun hin => ?_, fun hout => ?_⟩
  · obtain ⟨⟨size, align⟩, hsa⟩ := Option.isSome_iff_exists.mp (sizeAlign_isSome_iff.mpr hin)
    have hsafe : Safe ⟨start, n⟩ s := reach_safe hinit hend (reach_valid hs)
    obtain ⟨a', p, he, hans⟩ := hsafe.answers hend hsa
    refine ⟨size, align, hsa, fun r hr => ?_, a', p, he, hans, fun hpos hp => ?_⟩
    · obtain ⟨-, hnode, hrin⟩ := hsafe.region r hr
      exact exists_allocEnd hsa ((by decide : 0 < nodeSize).trans_le hnode) (hrin.2.trans hend)
    · subst hp
      obtain ⟨-, -, hin⟩ := hans
      exact absurd hin.1 (not_le.mpr hpos)
  · have hnone : sizeAlign layout = none :=
      Option.not_isSome_iff_eq_none.mp fun hsome => absurd (sizeAlign_isSome_iff.mp hsome)
        (not_le.mpr hout)
    refine ⟨hnone, ?_⟩
    rw [alloc, hnone]
    rfl

/-- A quarter of the address space is answered with null on the heap of the kernel. -/
theorem alloc_returns_kernel : ∃ a, init heapStart heapSize = some a ∧
    ∃ layout : Layout, layout.size = 2 ^ 62 ∧ layout.align = 8 ∧
      ∃ a' p, alloc a layout = some (a', p) ∧ p = none := by
  have hinit : init heapStart heapSize = some ⟨[⟨heapStart, heapSize⟩]⟩ := rfl
  have hret := (alloc_returns hinit (by decide) .start ⟨2 ^ 62, 8, ⟨3, rfl⟩, by decide⟩).1
    (by decide)
  obtain ⟨size, align, hsa, -, a', p, ha, hans, -⟩ := hret
  refine ⟨_, hinit, _, rfl, rfl, a', p, ha, ?_⟩
  cases p with
  | none => rfl
  | some p =>
    -- the block would have to lie in the heap
    obtain ⟨-, hsize, -, hstop⟩ := hans
    exfalso
    have hheap : (Region.mk heapStart heapSize).stop < 2 ^ 62 := by decide
    have hblk : (Region.mk p size).stop = p + size := rfl
    have hasked : 2 ^ 62 ≤ size := hsize
    omega

/-- The largest layout of alignment 1. -/
def largest : Layout := ⟨2 ^ 63 - 1, 1, ⟨0, rfl⟩, by decide⟩

/-- It cannot be adjusted to the alignment of a node; on the heap of the kernel it panics. -/
theorem largest_panics : ∃ a, init heapStart heapSize = some a ∧ sizeAlign largest = none ∧
    alloc a largest = none :=
  ⟨⟨[⟨heapStart, heapSize⟩]⟩, rfl, rfl, rfl⟩

end RustyOs.LinkedListReuse
