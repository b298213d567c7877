import RustyOs.Allocator
import RustyOs.Machine
import RustyOs.Regions

/-!
The bump allocator (`src/allocator/bump.rs`).

Allocations are put one behind the other. The allocator does not know which of them are live, only
how many, and starts again at the beginning when there are none. A call that would panic gives
nothing; a null pointer is `none`.

The null pointer is also what the client gets when an allocation comes to lie at address zero. It
is counted but no one can give it back, so the heap must not start there.
-/

namespace RustyOs.Bump

open RustyOs.Allocator RustyOs.Machine RustyOs.Regions

structure BumpAllocator where
  heapStart : ℕ
  heapEnd : ℕ
  next : ℕ
  allocations : ℕ

def BumpAllocator.new : BumpAllocator := ⟨0, 0, 0, 0⟩

section calls

variable (a : BumpAllocator)

def init (heapStart heapSize : ℕ) : Option BumpAllocator :=
  (checkedAdd heapStart heapSize).map fun heapEnd =>
    { a with heapStart := heapStart, heapEnd := heapEnd, next := heapStart }

/-- `addr as *mut u8`. -/
def asPtr (addr : ℕ) : Option ℕ := if addr = 0 then none else some addr

def alloc (layout : Layout) : Option (BumpAllocator × Option ℕ) := do
  let allocStart ← alignUp a.next layout.align
  match checkedAdd allocStart layout.size with
  | none => some (a, none)
  | some allocEnd =>
    if a.heapEnd < allocEnd then some (a, none)
    else
      let allocations ← checkedAdd a.allocations 1
      some ({ a with next := allocEnd, allocations := allocations }, asPtr allocStart)

/-- `dealloc` only counts. -/
def dealloc (_ptr : ℕ) (_layout : Layout) : Option BumpAllocator :=
  if a.allocations = 0 then none
  else
    let allocations := a.allocations - 1
    if allocations = 0 then some { a with allocations := allocations, next := a.heapStart }
    else some { a with allocations := allocations }

end calls

/-! ### Runs -/

/-- The allocator and the allocations of the client. -/
structure Heap where
  allocator : BumpAllocator
  live : List (ℕ × Layout)

inductive Event
  | alloc (layout : Layout)
  | dealloc (ptr : ℕ) (layout : Layout)

def Heap.next (s : Heap) : Event → Option Heap
  | .alloc layout => (alloc s.allocator layout).map fun r =>
      ⟨r.1, (r.2.map fun p => (p, layout)).toList ++ s.live⟩
  | .dealloc ptr layout => (dealloc s.allocator ptr layout).map fun a =>
      ⟨a, s.live.erase (ptr, layout)⟩

/-- The client gives back what it was given. -/
def Valid (s : Heap) : Event → Prop
  | .alloc _ => True
  | .dealloc ptr layout => (ptr, layout) ∈ s.live

def block (b : ℕ × Layout) : Region := ⟨b.1, b.2.size⟩

/-- The live allocations are counted, and lie aligned and apart from each other below `next`. -/
structure Safe (memory : Region) (s : Heap) : Prop where
  bounds : s.allocator.heapStart = memory.start ∧ s.allocator.heapEnd = memory.stop
  count : s.allocator.allocations = s.live.length
  next : memory.start ≤ s.allocator.next ∧ s.allocator.next ≤ memory.stop
  live : ∀ b ∈ s.live, b.2.align ∣ b.1 ∧ memory.start ≤ b.1 ∧ (block b).stop ≤ s.allocator.next
  separate : Separate (s.live.map block)

variable {memory : Region} {s s' : Heap} {e : Event}

/-- Up to the middle of the address space, rounding up does not overflow: the middle itself is
a multiple of every alignment. -/
lemma exists_alignUp_le {addr : ℕ} (layout : Layout) (ha : addr ≤ 2 ^ 63) :
    ∃ a, alignUp addr layout.align = some a := by
  rcases Nat.lt_or_ge addr (2 ^ 63) with hlt | hge
  · exact exists_alignUp layout.align_pos hlt layout.align_le
  · obtain rfl : addr = 2 ^ 63 := le_antisymm ha hge
    exact ⟨_, alignUp_of_dvd layout.align_pos (pow_dvd_of_le layout.pow ⟨63, rfl⟩ layout.align_le)⟩

/-- What a call of `alloc` does: it refuses, or puts the allocation behind the others. -/
lemma alloc_cases {a a' : BumpAllocator} {layout : Layout} {p : Option ℕ}
    (h : alloc a layout = some (a', p)) :
    (a' = a ∧ p = none) ∨ ∃ start, alignUp a.next layout.align = some start ∧
      start + layout.size ≤ a.heapEnd ∧ p = asPtr start ∧
      a' = { a with next := start + layout.size, allocations := a.allocations + 1 } := by
  obtain ⟨start, hup, h⟩ := Option.bind_eq_some_iff.mp h
  rcases hadd : checkedAdd start layout.size with _ | stop <;> rw [hadd] at h
  · obtain ⟨rfl, rfl⟩ := Prod.mk.inj (Option.some.inj h)
    exact .inl ⟨rfl, rfl⟩
  · obtain ⟨-, rfl⟩ := checkedAdd_eq_some.mp hadd
    simp only at h
    split_ifs at h with hend
    · obtain ⟨rfl, rfl⟩ := Prod.mk.inj (Option.some.inj h)
      exact .inl ⟨rfl, rfl⟩
    · obtain ⟨n, hn, h⟩ := Option.bind_eq_some_iff.mp h
      obtain ⟨-, rfl⟩ := checkedAdd_eq_some.mp hn
      obtain ⟨rfl, rfl⟩ := Prod.mk.inj (Option.some.inj h)
      exact .inr ⟨start, hup, not_lt.mp hend, rfl, rfl⟩

lemma dealloc_cases {a a' : BumpAllocator} {ptr : ℕ} {layout : Layout}
    (h : dealloc a ptr layout = some a') :
    (a.allocations = 1 ∧ a' = { a with allocations := 0, next := a.heapStart }) ∨
      1 < a.allocations ∧ a' = { a with allocations := a.allocations - 1 } := by
  simp only [dealloc] at h
  split_ifs at h with h0 h1 <;> obtain rfl := Option.some.inj h
  · exact .inl ⟨by omega, by rw [h1]⟩
  · exact .inr ⟨by omega, rfl⟩

lemma Safe.alloc (h : Safe memory s) (hpos : 0 < memory.start) {layout : Layout}
    (hs : s.next (.alloc layout) = some s') : Safe memory s' := by
  obtain ⟨⟨a, p⟩, ha, rfl⟩ := Option.map_eq_some_iff.mp hs
  rcases alloc_cases ha with ⟨rfl, rfl⟩ | ⟨start, hup, hend, rfl, rfl⟩
  · exact h
  · obtain ⟨hge, hdvd⟩ := alignUp_spec hup
    obtain ⟨hlo, hhi⟩ := h.next
    have hptr : asPtr start = some start := if_neg (by omega)
    simp only [hptr]
    refine ⟨h.bounds, by simp [h.count], ⟨?_, by rwa [h.bounds.2] at hend⟩, ?_, ?_⟩
    · change memory.start ≤ start + layout.size
      omega
    · refine List.forall_mem_cons.mpr ⟨⟨hdvd, hlo.trans hge, le_refl _⟩, fun b hb => ?_⟩
      obtain ⟨hal, hst, hle⟩ := h.live b hb
      refine ⟨hal, hst, ?_⟩
      change _ ≤ start + layout.size
      omega
    · -- the others end before the new one begins
      refine separate_cons.mpr ⟨fun r hr => ?_, h.separate⟩
      obtain ⟨b, hb, rfl⟩ := List.mem_map.mp hr
      obtain ⟨-, -, hle⟩ := h.live b hb
      rw [Region.disjoint_iff]
      exact (min_le_right _ _).trans (hle.trans (hge.trans (le_max_left _ _)))

lemma Safe.dealloc (h : Safe memory s) {ptr : ℕ} {layout : Layout}
    (hok : (ptr, layout) ∈ s.live) (hs : s.next (.dealloc ptr layout) = some s') :
    Safe memory s' := by
  obtain ⟨a, ha, rfl⟩ := Option.map_eq_some_iff.mp hs
  have hlen : (s.live.erase (ptr, layout)).length = s.live.length - 1 :=
    List.length_erase_of_mem hok
  have hcount := h.count
  rcases dealloc_cases ha with ⟨h1, rfl⟩ | ⟨h1, rfl⟩
  · have hnil : s.live.erase (ptr, layout) = [] := List.length_eq_zero_iff.mp (by omega)
    refine ⟨h.bounds, by simp [hnil], ?_, by simp [hnil], by simp [hnil, Separate]⟩
    change memory.start ≤ s.allocator.heapStart ∧ s.allocator.heapStart ≤ memory.stop
    rw [h.bounds.1]
    exact ⟨le_refl _, h.next.1.trans h.next.2⟩
  · refine ⟨h.bounds, ?_, h.next, fun b hb => h.live b (List.mem_of_mem_erase hb), ?_⟩
    · change s.allocator.allocations - 1 = (s.live.erase (ptr, layout)).length
      omega
    · exact h.separate.sublist ((List.erase_sublist).map _)

lemma Safe.step (h : Safe memory s) (hpos : 0 < memory.start) (hok : Valid s e)
    (hs : s.next e = some s') : Safe memory s' := by
  cases e with
  | alloc layout => exact h.alloc hpos hs
  | dealloc ptr layout => exact h.dealloc hok hs

lemma Safe.next_le (h : Safe memory s) (hpos : 0 < memory.start) (hok : Valid s e)
    (hs : s.next e = some s') : s.allocator.next ≤ s'.allocator.next ∨
      s'.allocator.next = memory.start ∧ s'.live = [] := by
  have hcount := (h.step hpos hok hs).count
  cases e with
  | alloc layout =>
    obtain ⟨⟨a, p⟩, ha, rfl⟩ := Option.map_eq_some_iff.mp hs
    left
    rcases alloc_cases ha with ⟨rfl, -⟩ | ⟨start, hup, -, -, rfl⟩
    · exact le_refl _
    · exact (alignUp_spec hup).1.trans (Nat.le_add_right _ _)
  | dealloc ptr layout =>
    obtain ⟨a, ha, rfl⟩ := Option.map_eq_some_iff.mp hs
    rcases dealloc_cases ha with ⟨-, rfl⟩ | ⟨-, rfl⟩
    · exact .inr ⟨h.bounds.1, List.length_eq_zero_iff.mp hcount.symm⟩
    · exact .inl (le_refl _)

lemma Safe.total (h : Safe memory s) (hmem : memory.stop ≤ 2 ^ 63) (hok : Valid s e)
    (hlen : s.live.length + 1 < 2 ^ 64) : ∃ s', s.next e = some s' := by
  cases e with
  | alloc layout =>
    obtain ⟨start, hup⟩ := exists_alignUp_le layout (h.next.2.trans hmem)
    have hcount : checkedAdd s.allocator.allocations 1 = some (s.allocator.allocations + 1) :=
      checkedAdd_eq_some.mpr ⟨by rw [h.count]; exact hlen, rfl⟩
    simp only [Heap.next, Bump.alloc, hup, hcount, Option.bind_eq_bind, Option.bind_some]
    rcases checkedAdd start layout.size with _ | stop
    · exact ⟨_, rfl⟩
    · simp only
      split_ifs
      · exact ⟨_, rfl⟩
      · exact ⟨_, rfl⟩
  | dealloc ptr layout =>
    have hpos : s.allocator.allocations ≠ 0 := by
      rw [h.count]
      exact (List.length_pos_of_mem hok).ne'
    simp only [Heap.next, Bump.dealloc, if_neg hpos]
    split_ifs
    · exact ⟨_, rfl⟩
    · exact ⟨_, rfl⟩

/-- **Safety of the bump allocator.** After `init` of a piece of the lower half of memory that does
not start at the null address, along every run in which the client gives back what it was given:
the live allocations are counted, lie aligned and apart below `next`, the address of the next one
can be rounded up, what is live can be given back, and `next` goes down only to the start of the
heap and only when nothing is live. -/
theorem bump_safe {start size : ℕ} (hpos : 0 < start) (hend : start + size ≤ 2 ^ 63) :
    ∃ a, init .new start size = some a ∧ ∀ s, Reach Heap.next Valid ⟨a, []⟩ s →
      Safe ⟨start, size⟩ s ∧
      (∀ layout : Layout, ∃ p, alignUp s.allocator.next layout.align = some p) ∧
      (∀ e, Valid s e → s.live.length + 1 < 2 ^ 64 → ∃ s', s.next e = some s') ∧
      ∀ e s', Valid s e → s.next e = some s' → s.allocator.next ≤ s'.allocator.next ∨
        s'.allocator.next = start ∧ s'.live = [] := by
  have hinit : init .new start size = some ⟨start, start + size, start, 0⟩ := by
    rw [init, checkedAdd_eq_some.mpr ⟨by omega, rfl⟩]
    rfl
  refine ⟨_, hinit, fun s hs => ?_⟩
  have hsafe : Safe ⟨start, size⟩ s := by
    refine hs.inv ⟨⟨rfl, rfl⟩, rfl, ⟨le_refl _, Nat.le_add_right _ _⟩, by simp, ?_⟩
      fun _ _ _ h hok hn => h.step hpos hok hn
    exact List.Pairwise.nil
  exact ⟨hsafe, fun layout => exists_alignUp_le layout (hsafe.next.2.trans hend),
    fun e he hlen => hsafe.total hend he hlen, fun e s' he hn => hsafe.next_le hpos he hn⟩

/-- On the heap of the kernel, one byte in front moves an aligned allocation up. -/
theorem bump_safe_kernel : ∃ a s, init .new heapStart heapSize = some a ∧
    Reach Heap.next Valid ⟨a, []⟩ s ∧
      s.live.map block = [⟨heapStart + 8, 24⟩, ⟨heapStart, 1⟩] ∧
      Safe ⟨heapStart, heapSize⟩ s := by
  obtain ⟨a, ha, hrun⟩ := bump_safe (by decide : 0 < heapStart)
    (by decide : heapStart + heapSize ≤ 2 ^ 63)
  obtain rfl : ⟨heapStart, heapStart + heapSize, heapStart, 0⟩ = a := Option.some_inj.mp ha
  have h : Reach Heap.next Valid ⟨⟨heapStart, heapStart + heapSize, heapStart, 0⟩, []⟩ _ :=
    .step (e := Event.alloc ⟨1, 1, ⟨0, rfl⟩, by decide⟩) .start trivial rfl
  have h := Reach.step (e := Event.alloc ⟨24, 8, ⟨3, rfl⟩, by decide⟩) h trivial rfl
  exact ⟨_, _, ha, h, by decide +kernel, (hrun _ h).1⟩

/-- A heap at the null address: the first allocation is counted, but the client has none. -/
theorem null_is_counted : ∃ a s, init .new 0 100 = some a ∧ Reach Heap.next Valid ⟨a, []⟩ s ∧
    s.allocator.allocations = 1 ∧ s.live = [] := by
  have h : Reach Heap.next Valid ⟨⟨0, 100, 0, 0⟩, []⟩ _ :=
    .step (e := Event.alloc ⟨1, 1, ⟨0, rfl⟩, by decide⟩) .start trivial rfl
  exact ⟨_, _, rfl, h, rfl, rfl⟩

end RustyOs.Bump
