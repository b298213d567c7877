import RustyOs.LinkedList

/-!
What becomes of the bytes of the heap under the linked-list allocator.

An allocation takes a region from the free list, starts at the first multiple of its alignment,
and gives back what is left behind it. What is left in front of it is not given back. So the
bytes of the free list and of the live allocations make up the heap exactly as long as there
never is anything in front.
-/

namespace RustyOs.LinkedListAccount

open RustyOs.Allocator RustyOs.Machine RustyOs.Regions RustyOs.LinkedList

variable {s s' : Heap} {e : Event} {size align : ℕ}

/-- The client gives back what it was given. -/
def GivesBack (s : Heap) : Event → Prop
  | .alloc _ => True
  | .dealloc ptr layout => (ptr, layout) ∈ s.live

/-- The bytes on the free list and in the hands of the client. -/
def account (s : Heap) : ℕ :=
  (s.allocator.regions.map Region.size).sum + (s.live.map fun b => (block b).size).sum

/-- `alloc_from_region` takes the region. -/
def Takes (size align : ℕ) (r : Region) : Prop :=
  ∃ start, allocFromRegion r size align = some (some start)

/-- The first free region that takes the allocation starts at a multiple of its alignment. -/
def Snug (s : Heap) : Event → Prop
  | .alloc layout => ∀ size align pre r post, sizeAlign layout = some (size, align) →
      s.allocator.regions = pre ++ r :: post →
      (∀ q ∈ pre, ¬ Takes size align q) → Takes size align r → align ∣ r.start
  | .dealloc _ _ => True

/-! ### One call -/

lemma not_takes {r : Region} (h : allocFromRegion r size align = some none) :
    ¬ Takes size align r := by
  rintro ⟨start, hs⟩
  rw [h] at hs
  cases hs

lemma allocFromRegion_fits {r : Region} {start : ℕ}
    (h : allocFromRegion r size align = some (some start)) :
    alignUp r.start align = some start ∧ r.stop < 2 ^ 64 ∧ start + size ≤ r.stop := by
  obtain ⟨a, hup, h⟩ := Option.bind_eq_some_iff.mp h
  rcases hadd : checkedAdd a size with _ | stop <;> rw [hadd] at h
  · cases h
  · obtain ⟨-, rfl⟩ := checkedAdd_eq_some.mp hadd
    obtain ⟨stop, hstop, h⟩ := Option.bind_eq_some_iff.mp h
    obtain ⟨hlt, rfl⟩ := checkedAdd_eq_some.mp hstop
    dsimp only at h
    split_ifs at h with hend
    · cases h
    · cases h
    · obtain rfl := Option.some.inj (Option.some.inj h)
      exact ⟨hup, hlt, not_lt.mp hend⟩

lemma first_unique {p : Region → Prop} {pre pre' post post' : List Region} {r r' : Region}
    (h : pre ++ r :: post = pre' ++ r' :: post') (hpre : ∀ q ∈ pre, ¬ p q) (hr : p r)
    (hpre' : ∀ q ∈ pre', ¬ p q) (hr' : p r') : r = r' := by
  induction pre generalizing pre' with
  | nil =>
    cases pre' with
    | nil => exact (List.cons.inj h).1
    | cons x xs =>
      obtain ⟨rfl, -⟩ := List.cons.inj h
      exact absurd hr (hpre' r (by simp))
  | cons y ys ih =>
    cases pre' with
    | nil =>
      obtain ⟨rfl, -⟩ := List.cons.inj h
      exact absurd hr' (hpre y (by simp))
    | cons x xs =>
      exact ih (List.cons.inj h).2 (fun q hq => hpre q (by simp [hq]))
        fun q hq => hpre' q (by simp [hq])

lemma alloc_account {a a' : LinkedListAllocator} {layout : Layout} {p : Option ℕ}
    (hsa : sizeAlign layout = some (size, align)) (h : alloc a layout = some (a', p)) :
    (a' = a ∧ p = none ∧ ∀ r ∈ a.regions, ¬ Takes size align r) ∨
      ∃ pre r post start, a.regions = pre ++ r :: post ∧ (∀ q ∈ pre, ¬ Takes size align q) ∧
        Takes size align r ∧ alignUp r.start align = some start ∧ p = some start ∧
        (∀ q ∈ a'.regions, q ∈ a.regions ∨ q.start = start + size) ∧
        (a'.regions.map Region.size).sum + size + (start - r.start) =
          (a.regions.map Region.size).sum := by
  simp only [alloc, hsa, Option.bind_eq_bind, Option.bind_some] at h
  obtain ⟨o, ho, h⟩ := Option.bind_eq_some_iff.mp h
  rcases o with _ | ⟨r, start, rest⟩
  · obtain ⟨rfl, rfl⟩ := Prod.mk.inj (Option.some.inj h)
    exact .inl ⟨rfl, rfl, fun r hr => not_takes (findRegion_none ho r hr)⟩
  · obtain ⟨pre, post, hregions, rfl, hpre, hr⟩ := findRegion_split ho
    obtain ⟨hup, hlt, hfit⟩ := allocFromRegion_fits hr
    have hge := (alignUp_spec hup).1
    have hadd : checkedAdd start size = some (start + size) :=
      checkedAdd_eq_some.mpr ⟨by omega, rfl⟩
    have hend : endAddr r = some r.stop := checkedAdd_eq_some.mpr ⟨hlt, rfl⟩
    refine .inr ⟨pre, r, post, start, hregions, fun q hq => not_takes (hpre q hq), ⟨start, hr⟩,
      hup, ?_⟩
    simp only [hadd, hend, Option.bind_some, if_neg (not_lt.mpr hfit)] at h
    have hsize : r.stop = r.start + r.size := rfl
    have hkept : ∀ q ∈ pre ++ post, q ∈ a.regions := fun q hq => by
      rw [hregions]
      exact ((List.sublist_cons_self r post).append_left pre).subset hq
    split_ifs at h with hex
    · -- the rest behind the allocation goes back to the list
      obtain ⟨b, hb, h⟩ := Option.bind_eq_some_iff.mp h
      obtain ⟨rfl, rfl⟩ := Prod.mk.inj (Option.some.inj h)
      rw [addFreeRegion] at hb
      split_ifs at hb
      obtain rfl := Option.some.inj hb
      refine ⟨rfl, List.forall_mem_cons.mpr ⟨.inr rfl, fun q hq => .inl (hkept q hq)⟩, ?_⟩
      simp only [hregions, List.map_append, List.map_cons, List.sum_append, List.sum_cons]
      omega
    · obtain ⟨rfl, rfl⟩ := Prod.mk.inj (Option.some.inj h)
      refine ⟨rfl, fun q hq => .inl (hkept q hq), ?_⟩
      simp only [hregions, List.map_append, List.map_cons, List.sum_append, List.sum_cons]
      omega

lemma account_alloc {layout : Layout} (hs : s.next (.alloc layout) = some s') :
    account s' ≤ account s ∧ (account s' = account s ↔ Snug s (.alloc layout)) := by
  obtain ⟨⟨a, p⟩, ha, rfl⟩ := Option.map_eq_some_iff.mp hs
  obtain ⟨⟨size, align⟩, hsa, -⟩ := Option.bind_eq_some_iff.mp ha
  rcases alloc_account hsa ha with ⟨rfl, rfl, hnone⟩ | ⟨pre, r, post, start, hregions, hpre, htakes,
    hup, rfl, -, hsum⟩
  · refine ⟨le_refl _, fun _ => ?_, fun _ => rfl⟩
    intro size' align' pre r post hsa' hregions hpre htakes
    obtain ⟨rfl, rfl⟩ := Prod.mk.inj (Option.some.inj (hsa.symm.trans hsa'))
    exact absurd htakes (hnone r (by simp [hregions]))
  · have hblock : (block (start, layout)).size = size := by rw [block_eq hsa]
    have haccount : account ⟨a, [(start, layout)] ++ s.live⟩ + (start - r.start) = account s := by
      simp only [account, List.cons_append, List.nil_append, List.map_cons, List.sum_cons, hblock]
      omega
    obtain ⟨hge, hdvd⟩ := alignUp_spec hup
    change account ⟨a, [(start, layout)] ++ s.live⟩ ≤ _ ∧
      (account ⟨a, [(start, layout)] ++ s.live⟩ = _ ↔ _)
    refine ⟨by omega, fun heq => ?_, fun hsnug => ?_⟩
    · intro size' align' pre' r' post' hsa' hregions' hpre' htakes'
      obtain ⟨rfl, rfl⟩ := Prod.mk.inj (Option.some.inj (hsa.symm.trans hsa'))
      obtain rfl := first_unique (hregions.symm.trans hregions') hpre htakes hpre' htakes'
      have hstart : start = r.start := by omega
      rwa [hstart] at hdvd
    · have hal := hsnug size align pre r post hsa hregions hpre htakes
      have hpos : 0 < align := (sizeAlign_spec hsa).2.2.2.1
      rw [alignUp_of_dvd hpos hal] at hup
      obtain rfl := Option.some.inj hup
      omega

lemma account_dealloc {ptr : ℕ} {layout : Layout} (hok : (ptr, layout) ∈ s.live)
    (hs : s.next (.dealloc ptr layout) = some s') : account s' = account s := by
  obtain ⟨a, ha, rfl⟩ := Option.map_eq_some_iff.mp hs
  obtain ⟨⟨size, align⟩, hsa, ha⟩ := Option.bind_eq_some_iff.mp ha
  simp only [addFreeRegion] at ha
  split_ifs at ha
  obtain rfl := Option.some.inj ha
  have hblock : (block (ptr, layout)).size = size := by rw [block_eq hsa]
  have hperm := ((List.perm_cons_erase hok).map fun b => (block b).size).sum_eq
  simp only [List.map_cons, List.sum_cons, hblock] at hperm
  simp only [account, List.map_cons, List.sum_cons]
  omega

lemma account_next (hok : GivesBack s e) (hs : s.next e = some s') :
    account s' ≤ account s ∧ (account s' = account s ↔ Snug s e) := by
  cases e with
  | alloc layout => exact account_alloc hs
  | dealloc ptr layout =>
    have heq := account_dealloc hok hs
    exact ⟨heq.le, fun _ => trivial, fun _ => heq⟩

/-- A heap without null pointers stays one; the end of the heap does not matter. -/
lemma nonNull_next (h : NonNull s) (hok : GivesBack s e) (hs : s.next e = some s') :
    NonNull s' := by
  obtain ⟨hregions, hlive⟩ := h
  cases e with
  | alloc layout =>
    obtain ⟨⟨a, p⟩, ha, rfl⟩ := Option.map_eq_some_iff.mp hs
    obtain ⟨⟨size, align⟩, hsa, -⟩ := Option.bind_eq_some_iff.mp ha
    rcases alloc_account hsa ha with
      ⟨rfl, rfl, -⟩ | ⟨pre, r, post, start, hsplit, -, -, hup, rfl, hkept, -⟩
    · exact ⟨hregions, hlive⟩
    · have hr : 0 < r.start := hregions r (by simp [hsplit])
      have hpos : 0 < start := hr.trans_le (alignUp_spec hup).1
      refine ⟨fun q hq => ?_, List.forall_mem_cons.mpr ⟨hpos, hlive⟩⟩
      rcases hkept q hq with hq | hq
      · exact hregions q hq
      · omega
  | dealloc ptr layout =>
    obtain ⟨a, ha, rfl⟩ := Option.map_eq_some_iff.mp hs
    obtain ⟨⟨size, align⟩, -, ha⟩ := Option.bind_eq_some_iff.mp ha
    obtain ⟨-, ha⟩ := Option.ite_none_right_eq_some.mp ha
    obtain rfl := Option.some.inj ha
    exact ⟨List.forall_mem_cons.mpr ⟨hlive _ hok, hregions⟩,
      fun b hb => hlive b (List.mem_of_mem_erase hb)⟩

/-! ### Runs -/

/-- **When no memory is lost.** Along every run in which the client gives back what it was given,
the free list and the live allocations make up the heap exactly when every allocation so far
found its first fitting region at a multiple of its alignment. With 0 < `start`, as on a machine, no
node and no allocation is at the null address. -/
theorem account_eq_iff {start size : ℕ} (halign : 8 ∣ start) (hsize : 16 ≤ size) :
    ∃ a, init start size = some a ∧ ∀ s, Reach Heap.next GivesBack ⟨a, []⟩ s →
      (0 < start → NonNull s) ∧ account s ≤ size ∧
      (account s = size ↔
        Reach Heap.next (fun s e => GivesBack s e ∧ Snug s e) ⟨a, []⟩ s) := by
  refine ⟨_, addFreeRegion_eq halign hsize, fun s hs => ?_⟩
  have hinit : account ⟨⟨[⟨start, size⟩]⟩, []⟩ = size := by simp [account]
  refine ⟨fun hpos => ?_, ?_⟩
  · refine hs.inv ⟨?_, by simp⟩ fun _ _ _ h hok hs => nonNull_next h hok hs
    simpa [LinkedListAllocator.new] using hpos
  induction hs with
  | start => exact ⟨hinit.le, fun _ => .start, fun _ => hinit⟩
  | @step s s' e h hok hs ih =>
    obtain ⟨hle, hiff⟩ := ih
    obtain ⟨hstep, hsnug⟩ := account_next hok hs
    refine ⟨hstep.trans hle, fun heq => ?_, fun hr => ?_⟩
    · -- nothing that was lost comes back
      have hs₀ : account s = size := le_antisymm hle (heq ▸ hstep)
      exact (hiff.mp hs₀).step ⟨hok, hsnug.mp (heq.trans hs₀.symm)⟩ hs
    · refine hr.inv (I := fun s => account s = size) hinit fun s e s' hi hok hs => ?_
      exact ((account_next hok.1 hs).2.mpr hok.2).trans hi

/-- On the heap of the kernel, two allocations of the same alignment lose nothing. -/
theorem account_eq_iff_kernel : ∃ a s, init heapStart heapSize = some a ∧
    Reach Heap.next GivesBack ⟨a, []⟩ s ∧ s.live.length = 2 ∧ account s = heapSize ∧
      Reach Heap.next (fun s e => GivesBack s e ∧ Snug s e) ⟨a, []⟩ s := by
  obtain ⟨a, ha, hrun⟩ := account_eq_iff (by decide : 8 ∣ heapStart) (by decide : 16 ≤ heapSize)
  obtain rfl : ⟨[⟨heapStart, heapSize⟩]⟩ = a := Option.some_inj.mp ha
  have h : Reach Heap.next GivesBack ⟨⟨[⟨heapStart, heapSize⟩]⟩, []⟩ _ :=
    .step (e := Event.alloc ⟨24, 8, ⟨3, rfl⟩, by decide⟩) .start trivial rfl
  have h := Reach.step (e := Event.alloc ⟨24, 8, ⟨3, rfl⟩, by decide⟩) h trivial rfl
  exact ⟨_, _, ha, h, rfl, by decide +kernel, (hrun _ h).2.2.mp (by decide +kernel)⟩

def small : Layout := ⟨16, 8, ⟨3, rfl⟩, by decide⟩
def wide : Layout := ⟨64, 64, ⟨6, rfl⟩, by decide⟩

/-- A small allocation comes first, then one of alignment 64; both are given back. The 48 bytes
in front of the second are gone. -/
theorem gap_is_lost : ∃ a s, init heapStart heapSize = some a ∧
    Reach Heap.next GivesBack ⟨a, []⟩ s ∧ s.live = [] ∧ account s + 48 = heapSize := by
  have h₁ : Reach Heap.next GivesBack ⟨⟨[⟨heapStart, heapSize⟩]⟩, []⟩
      ⟨⟨[⟨heapStart + 16, heapSize - 16⟩]⟩, [(heapStart, small)]⟩ :=
    .step (e := .alloc small) .start trivial rfl
  have h₂ : Reach Heap.next GivesBack ⟨⟨[⟨heapStart, heapSize⟩]⟩, []⟩
      ⟨⟨[⟨heapStart + 128, heapSize - 128⟩]⟩, [(heapStart + 64, wide), (heapStart, small)]⟩ :=
    .step (e := .alloc wide) h₁ trivial rfl
  have h₃ := Reach.step (e := Event.dealloc (heapStart + 64) wide) h₂ List.mem_cons_self rfl
  have h₄ := Reach.step (e := Event.dealloc heapStart small) h₃ List.mem_cons_self rfl
  exact ⟨_, _, addFreeRegion_eq (by decide) (by decide), h₄, rfl, rfl⟩

end RustyOs.LinkedListAccount
