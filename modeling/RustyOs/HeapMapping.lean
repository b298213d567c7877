import RustyOs.FixedSizeBlock
import RustyOs.Frames

/-!
The mapping of the heap (`init_heap` of `src/allocator.rs`).

For each page of the heap `init_heap` takes a frame from the allocator and has the mapper of the
crate `x86_64` map the page to it; the mapper takes frames from the same allocator for page tables
it has to make. The mapper is a parameter: all that is used of it is what its documentation says.
Since no frame is handed out twice, the frames of the heap are different ones, and none of them is
a page table.
-/

namespace RustyOs.HeapMapping

open RustyOs.Allocator RustyOs.Frames RustyOs.Machine RustyOs.Regions

/-- A page of 4 KiB, by its number. -/
structure Page where
  number : ℕ
  deriving DecidableEq

/-- The page holds the byte at the address. -/
def Page.Contains (p : Page) (addr : ℕ) : Prop := p.number = addr / 4096

inductive PageTableFlag
  | present
  | writable
  deriving DecidableEq

inductive MapToError
  | frameAllocationFailed
  | parentEntryHugePage
  | pageAlreadyMapped (frame : PhysFrame)

inductive TranslateError
  | pageNotMapped
  | parentEntryHugePage
  | invalidFrameAddress

/-- What is used of the crate: `Page::containing_address`, the pages of `Page::range_inclusive`,
`Mapper::map_to`, which may panic, and, to say what it does, `Mapper::translate_page`. `τ` is the
state of the mapper, `A` that of the allocator, and `tables` are the frames of page tables. -/
structure Mapper (τ A : Type) where
  containingAddress : ℕ → Page
  rangeInclusive : Page → Page → List Page
  mapTo : Page → PhysFrame → List PageTableFlag → A → τ →
    Option (Except MapToError Unit × A × τ)
  translatePage : τ → Page → Except TranslateError PhysFrame
  tables : τ → Set PhysFrame

section calls

variable {τ A : Type} (x : Mapper τ A) (allocateFrame : A → Option (A × Option PhysFrame))

/-- Calls of `allocate_frame` one after another, with what they return. -/
def calls : ℕ → A → Option (A × List (Option PhysFrame))
  | 0, a => some (a, [])
  | n + 1, a => do
    let (a, frame) ← allocateFrame a
    let (a, frames) ← calls n a
    some (a, frame :: frames)

end calls

/-! ### What is documented -/

section documented

variable {τ A : Type}

/-- What a call of `map_to` does; `fs` is what the allocator has returned to it. -/
structure Effect (x : Mapper τ A) (page : Page) (frame : PhysFrame) (t : τ)
    (r : Except MapToError Unit) (t' : τ) (fs : List (Option PhysFrame)) : Prop where
  /-- A new mapping is created, and nothing else is. -/
  mapped : r = .ok () → x.translatePage t' page = .ok frame
  others : ∀ p, p ≠ page → x.translatePage t' p = x.translatePage t p
  /-- New page tables are made in frames of the allocator. -/
  tables : ∀ f ∈ x.tables t', f ∈ x.tables t ∨ some f ∈ fs
  /-- An additional frame was needed, and the allocator returned `None`. -/
  frameAllocationFailed : r = .error .frameAllocationFailed → none ∈ fs
  /-- The page is part of a huge page that is mapped already. -/
  parentEntryHugePage : r = .error .parentEntryHugePage →
    x.translatePage t page ≠ .error .pageNotMapped
  /-- The page is mapped already. -/
  pageAlreadyMapped : ∀ f, r = .error (.pageAlreadyMapped f) →
    x.translatePage t page ≠ .error .pageNotMapped

/-- The documentation of the crate. What it says of `map_to` it says for an allocator that returns
unused frames only, and therefore none in which there is a page table. -/
structure Mapper.Documented (x : Mapper τ A)
    (allocateFrame : A → Option (A × Option PhysFrame)) : Prop where
  /-- The page that contains the address. -/
  contains : ∀ addr, (x.containingAddress addr).Contains addr
  /-- The pages of the range with both of its ends, each once. -/
  mem_range : ∀ p q s, s ∈ x.rangeInclusive p q ↔ p.number ≤ s.number ∧ s.number ≤ q.number
  nodup_range : ∀ p q, (x.rangeInclusive p q).Nodup
  /-- `map_to` has no panic of its own. -/
  returns : ∀ page frame flags a t, (∀ k ≤ 3, (calls allocateFrame k a).isSome) →
    (x.mapTo page frame flags a t).isSome
  /-- At most three frames are required. -/
  effect : ∀ page frame flags a t r a' t', .present ∈ flags →
    x.mapTo page frame flags a t = some (r, a', t') →
    ∃ fs, fs.length ≤ 3 ∧ calls allocateFrame fs.length a = some (a', fs) ∧
      ((∀ f, some f ∈ fs → f ∉ x.tables t) → Effect x page frame t r t' fs)

end documented

/-! ### The allocator of frames -/

/-- The usable frames, in the order in which they are handed out. -/
def usableFrames (memoryMap : MemoryMap) : List PhysFrame :=
  (frameAddresses memoryMap).map PhysFrame.mk

/-- A frame that one of the calls from the `n`-th up to the `n'`-th hands out. -/
def HandedOut (memoryMap : MemoryMap) (n n' : ℕ) (f : PhysFrame) : Prop :=
  ∃ i, n ≤ i ∧ i < n' ∧ (usableFrames memoryMap)[i]? = some f

/-- The memory map of a machine: the usable regions are disjoint and can be addressed. -/
structure Physical (memoryMap : MemoryMap) : Prop where
  disjoint : DisjointUsable memoryMap
  below : ∀ f, Usable memoryMap f → f.startAddress < 2 ^ 52

variable {τ : Type} {c : Crate} {x : Mapper τ BootInfoFrameAllocator}
variable {memoryMap : MemoryMap} {t t' : τ} {n n' : ℕ} {f : PhysFrame}

lemma HandedOut.usable (h : HandedOut memoryMap n n' f) : Usable memoryMap f := by
  obtain ⟨i, -, -, hi⟩ := h
  obtain ⟨addr, haddr, rfl⟩ := List.mem_map.mp (List.mem_of_getElem? hi)
  exact mem_frameAddresses.mp haddr

lemma HandedOut.mono {lo hi : ℕ} (h : HandedOut memoryMap n n' f) (hlo : lo ≤ n) (hhi : n' ≤ hi) :
    HandedOut memoryMap lo hi f := by
  obtain ⟨i, hn, hn', hi⟩ := h
  exact ⟨i, by omega, by omega, hi⟩

lemma HandedOut.lt_of_eq (hm : Physical memoryMap) (h : HandedOut memoryMap n n' f) {i : ℕ}
    (hi : (usableFrames memoryMap)[i]? = some f) : n ≤ i ∧ i < n' := by
  obtain ⟨j, hn, hn', hj⟩ := h
  have hnodup : (usableFrames memoryMap).Nodup :=
    (nodup_frameAddresses hm.disjoint).map fun _ _ hab => PhysFrame.mk.inj hab
  have hlt : i < (usableFrames memoryMap).length := (List.getElem?_eq_some_iff.mp hi).1
  obtain rfl : i = j := (List.getElem?_inj hlt hnodup).mp (hi.trans hj.symm)
  exact ⟨hn, hn'⟩

section allocator

variable (hc : c.Documented) (hm : Physical memoryMap)

include hc hm

end allocator

/-! ### Mapping pages -/

/-- No frame that is still to be handed out is a page table. -/
def Fresh (x : Mapper τ BootInfoFrameAllocator) (memoryMap : MemoryMap) (n : ℕ) (t : τ) : Prop :=
  ∀ i f, n ≤ i → (usableFrames memoryMap)[i]? = some f → f ∉ x.tables t

/-- What `map_to` comes to with this allocator, when the `n`-th call is the next. -/
structure MapsTo (x : Mapper τ BootInfoFrameAllocator) (memoryMap : MemoryMap) (page : Page)
    (frame : PhysFrame) (n : ℕ) (t : τ) (r : Except MapToError Unit) (n' : ℕ) (t' : τ) :
    Prop where
  le : n ≤ n'
  few : n' ≤ n + 3
  mapped : r = .ok () → x.translatePage t' page = .ok frame
  others : ∀ p, p ≠ page → x.translatePage t' p = x.translatePage t p
  tables : ∀ f ∈ x.tables t', f ∈ x.tables t ∨ HandedOut memoryMap n n' f
  succeeds : x.translatePage t page = .error .pageNotMapped →
    n + 3 ≤ (usableFrames memoryMap).length → r = .ok ()

/-- What the loop of `init_heap` comes to; `frames` are those of the pages it has mapped. -/
structure PagesMapped (x : Mapper τ BootInfoFrameAllocator) (memoryMap : MemoryMap)
    (pages : List Page) (n : ℕ) (t : τ) (r : Except MapToError Unit) (n' : ℕ) (t' : τ)
    (frames : List PhysFrame) : Prop where
  le : n ≤ n'
  others : ∀ p ∉ pages, x.translatePage t' p = x.translatePage t p
  tables : ∀ f ∈ x.tables t', f ∈ x.tables t ∨ HandedOut memoryMap n n' f
  taken : ∀ f ∈ frames, HandedOut memoryMap n n' f ∧ f ∉ x.tables t'
  nodup : frames.Nodup
  mapped : r = .ok () → List.Forall₂ (fun p f => x.translatePage t' p = .ok f) pages frames
  succeeds : (∀ p ∈ pages, x.translatePage t p = .error .pageNotMapped) →
    n + 4 * pages.length ≤ (usableFrames memoryMap).length → r = .ok ()

section loop

variable {page : Page} {pages : List Page}

lemma PagesMapped.cons {r : Except MapToError Unit} {n₁ : ℕ} {t₁ : τ} {frames : List PhysFrame}
    (hm : Physical memoryMap) (hf : Fresh x memoryMap n t) (hnot : page ∉ pages)
    (hget : (usableFrames memoryMap)[n]? = some f)
    (h₁ : MapsTo x memoryMap page f (n + 1) t (.ok ()) n₁ t₁)
    (h : PagesMapped x memoryMap pages n₁ t₁ r n' t' frames) :
    PagesMapped x memoryMap (page :: pages) n t r n' t' (f :: frames) := by
  have hlow : n + 1 ≤ n₁ := h₁.le
  have hhigh : n₁ ≤ n' := h.le
  -- the frame of the page has been handed out before any of the others
  have hbefore : ∀ lo hi, n < lo → ¬ HandedOut memoryMap lo hi f := by
    intro lo hi hlo hh
    have := hh.lt_of_eq hm hget
    omega
  have htable : f ∉ x.tables t' := by
    intro hmem
    rcases h.tables f hmem with hmem | hh
    · rcases h₁.tables f hmem with hmem | hh
      · exact hf n f (le_refl n) hget hmem
      · exact hbefore _ _ (Nat.lt_succ_self n) hh
    · exact hbefore _ _ (by omega) hh
  refine ⟨by omega, fun p hp => ?_, fun g hg => ?_, ?_, ?_, fun hr => ?_, fun hnew hroom => ?_⟩
  · rw [List.mem_cons, not_or] at hp
    rw [h.others p hp.2, h₁.others p hp.1]
  · rcases h.tables g hg with hg | hh
    · exact (h₁.tables g hg).imp_right fun hh => hh.mono (Nat.le_succ n) hhigh
    · exact .inr (hh.mono (by omega) (le_refl n'))
  · refine List.forall_mem_cons.mpr ⟨⟨⟨n, le_refl n, by omega, hget⟩, htable⟩, fun g hg => ?_⟩
    exact ⟨(h.taken g hg).1.mono (by omega) (le_refl n'), (h.taken g hg).2⟩
  · refine List.nodup_cons.mpr ⟨fun hmem => ?_, h.nodup⟩
    exact hbefore _ _ (by omega) (h.taken f hmem).1
  · refine .cons ?_ (h.mapped hr)
    rw [h.others page hnot]
    exact h₁.mapped rfl
  · obtain ⟨-, hnew⟩ := List.forall_mem_cons.mp hnew
    have hfew := h₁.few
    refine h.succeeds (fun p hp => ?_) ?_
    · rw [h₁.others p fun heq => hnot (heq ▸ hp), hnew p hp]
    · simp only [List.length_cons] at hroom
      omega

end loop

/-! ### The heap -/

/-- The mappings and the page tables. -/
structure Tables where
  entries : Page → Except TranslateError PhysFrame
  frames : List PhysFrame

/-- Nothing is mapped. -/
def blank : Tables := ⟨fun _ => .error .pageNotMapped, []⟩

end RustyOs.HeapMapping
