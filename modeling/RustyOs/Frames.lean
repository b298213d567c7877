import RustyOs.Allocator

/-!
The allocator of physical frames (`BootInfoFrameAllocator` of `src/memory.rs`).

The allocator keeps a counter. Each call lists the frames of all usable regions again and takes
the one at the place the counter gives. A call that would panic gives nothing; the inner option
is the one the call returns.

How an address becomes a frame is the business of the crate `x86_64`. Its two functions are
parameters here, and what their documentation says is a hypothesis.
-/

namespace RustyOs.Frames

open RustyOs.Allocator

def frameSize : ℕ := 4096

/-- The bounds of a region, which are those of pages. -/
structure FrameRange where
  startAddr : ℕ
  endAddr : ℕ
  start_dvd : frameSize ∣ startAddr
  end_dvd : frameSize ∣ endAddr

/-- The kinds of regions that the allocator tells apart. -/
inductive MemoryRegionType
  | usable
  | other
  deriving DecidableEq

structure MemoryRegion where
  range : FrameRange
  regionType : MemoryRegionType

abbrev MemoryMap := List MemoryRegion

structure PhysFrame where
  startAddress : ℕ
  deriving DecidableEq

/-- What is used of the crate: `PhysAddr::new`, which may panic, and
`PhysFrame::containing_address`. -/
structure Crate where
  new : ℕ → Option ℕ
  containingAddress : ℕ → PhysFrame

/-- The frame holds the byte at the address. -/
def PhysFrame.Contains (f : PhysFrame) (addr : ℕ) : Prop :=
  frameSize ∣ f.startAddress ∧ f.startAddress ≤ addr ∧ addr < f.startAddress + frameSize

/-- The documentation: `new` panics if one of the bits 52 to 63 is set and gives the address
otherwise, and `containing_address` gives the frame that contains the address. -/
structure Crate.Documented (x : Crate) : Prop where
  new_of_lt : ∀ addr < 2 ^ 52, x.new addr = some addr
  new_of_ge : ∀ addr, 2 ^ 52 ≤ addr → x.new addr = none
  contains : ∀ addr, (x.containingAddress addr).Contains addr

/-- `(start..stop).step_by(step)`. -/
def stepBy (start stop step : ℕ) : List ℕ :=
  List.range' start ((stop - start + (step - 1)) / step) step

def usableRegions (memoryMap : MemoryMap) : List MemoryRegion :=
  memoryMap.filter fun r => r.regionType = .usable

/-- The addresses `usable_frames` makes frames of, one after the other. -/
def frameAddresses (memoryMap : MemoryMap) : List ℕ :=
  (usableRegions memoryMap).flatMap fun r => stepBy r.range.startAddr r.range.endAddr frameSize

section calls

variable (x : Crate)

/-- `nth` of the iterator, which makes the frames in front as well. -/
def nth : List ℕ → ℕ → Option (Option PhysFrame)
  | [], _ => some none
  | addr :: rest, n => do
    let phys ← x.new addr
    match n with
    | 0 => some (some (x.containingAddress phys))
    | n + 1 => nth rest n

structure BootInfoFrameAllocator where
  memoryMap : MemoryMap
  next : ℕ

def init (memoryMap : MemoryMap) : BootInfoFrameAllocator := ⟨memoryMap, 0⟩

def allocateFrame (a : BootInfoFrameAllocator) :
    Option (BootInfoFrameAllocator × Option PhysFrame) := do
  let frame ← nth x (frameAddresses a.memoryMap) a.next
  let next ← checkedAdd a.next 1
  some ({ a with next := next }, frame)

/-- Calls one after another, with what they return. -/
def allocateFrames : ℕ → BootInfoFrameAllocator →
    Option (BootInfoFrameAllocator × List (Option PhysFrame))
  | 0, a => some (a, [])
  | n + 1, a => do
    let (a, frame) ← allocateFrame x a
    let (a, frames) ← allocateFrames n a
    some (a, frame :: frames)

end calls

/-! ### The frames of the usable regions -/

variable {memoryMap : MemoryMap} {r : MemoryRegion} {addr : ℕ} {x : Crate}

/-- The frame lies entirely in a usable region. -/
def Usable (memoryMap : MemoryMap) (f : PhysFrame) : Prop :=
  frameSize ∣ f.startAddress ∧ ∃ r ∈ memoryMap, r.regionType = .usable ∧
    r.range.startAddr ≤ f.startAddress ∧ f.startAddress + frameSize ≤ r.range.endAddr

/-- No two usable regions have a byte in common. -/
def DisjointUsable (memoryMap : MemoryMap) : Prop :=
  (usableRegions memoryMap).Pairwise fun r r' =>
    Disjoint (Set.Ico r.range.startAddr r.range.endAddr)
      (Set.Ico r'.range.startAddr r'.range.endAddr)

lemma mem_stepBy (range : FrameRange) : addr ∈ stepBy range.startAddr range.endAddr frameSize ↔
    frameSize ∣ addr ∧ range.startAddr ≤ addr ∧ addr + frameSize ≤ range.endAddr := by
  obtain ⟨start, stop, ⟨a, rfl⟩, b, rfl⟩ := range
  simp only [stepBy, List.mem_range', frameSize]
  constructor
  · rintro ⟨i, hi, rfl⟩
    refine ⟨⟨a + i, by ring⟩, ?_, ?_⟩ <;> omega
  · rintro ⟨⟨c, rfl⟩, hlo, hhi⟩
    exact ⟨c - a, by omega, by omega⟩

lemma nodup_stepBy (range : FrameRange) :
    (stepBy range.startAddr range.endAddr frameSize).Nodup := by
  unfold stepBy
  exact List.nodup_range' frameSize (by decide)

lemma mem_frameAddresses : addr ∈ frameAddresses memoryMap ↔ Usable memoryMap ⟨addr⟩ := by
  simp only [frameAddresses, List.mem_flatMap, usableRegions, List.mem_filter, decide_eq_true_eq,
    mem_stepBy, Usable]
  constructor
  · rintro ⟨r, ⟨hr, hu⟩, hdvd, hlo, hhi⟩
    exact ⟨hdvd, r, hr, hu, hlo, hhi⟩
  · rintro ⟨hdvd, r, hr, hu, hlo, hhi⟩
    exact ⟨r, ⟨hr, hu⟩, hdvd, hlo, hhi⟩

lemma nodup_frameAddresses (h : DisjointUsable memoryMap) : (frameAddresses memoryMap).Nodup := by
  refine List.nodup_flatMap.mpr ⟨fun r _ => nodup_stepBy r.range, h.imp ?_⟩
  intro r r' hdis addr haddr haddr'
  obtain ⟨-, hlo, hhi⟩ := (mem_stepBy r.range).mp haddr
  obtain ⟨-, hlo', hhi'⟩ := (mem_stepBy r'.range).mp haddr'
  have hpos : 0 < frameSize := by decide
  exact Set.disjoint_left.mp hdis ⟨hlo, by omega⟩ ⟨hlo', by omega⟩

lemma containingAddress_of_mem (hx : x.Documented) (h : addr ∈ frameAddresses memoryMap) :
    x.containingAddress addr = ⟨addr⟩ := by
  obtain ⟨⟨i, hi⟩, hle, hlt⟩ := hx.contains addr
  obtain ⟨⟨j, hj⟩, -⟩ := mem_frameAddresses.mp h
  simp only [frameSize] at hi hj hlt
  have hstart : (x.containingAddress addr).startAddress = addr := by omega
  exact congrArg PhysFrame.mk hstart

/-! ### The calls -/

lemma nth_eq (hx : x.Documented) {l : List ℕ} (h : ∀ addr ∈ l, addr < 2 ^ 52) (n : ℕ) :
    nth x l n = some ((l.map x.containingAddress)[n]?) := by
  induction l generalizing n with
  | nil => rfl
  | cons addr rest ih =>
    obtain ⟨haddr, hrest⟩ := List.forall_mem_cons.mp h
    rw [nth, hx.new_of_lt addr haddr]
    cases n with
    | zero => rfl
    | succ n => exact ih hrest n

/-- What the next calls return. -/
def results (frames : List PhysFrame) (next n : ℕ) : List (Option PhysFrame) :=
  (List.range n).map fun i => frames[next + i]?

lemma allocateFrame_eq (hx : x.Documented)
    (h : ∀ addr ∈ frameAddresses memoryMap, addr < 2 ^ 52) {next : ℕ} (hn : next + 1 < 2 ^ 64) :
    allocateFrame x ⟨memoryMap, next⟩ = some (⟨memoryMap, next + 1⟩,
      ((frameAddresses memoryMap).map PhysFrame.mk)[next]?) := by
  have hframes : (frameAddresses memoryMap).map x.containingAddress =
      (frameAddresses memoryMap).map PhysFrame.mk :=
    List.map_congr_left fun addr haddr => containingAddress_of_mem hx haddr
  have hadd : checkedAdd next 1 = some (next + 1) := checkedAdd_eq_some.mpr ⟨hn, rfl⟩
  simp only [allocateFrame, nth_eq hx h, hadd, hframes, Option.bind_eq_bind, Option.bind_some]

lemma allocateFrames_eq (hx : x.Documented)
    (h : ∀ addr ∈ frameAddresses memoryMap, addr < 2 ^ 52) (n next : ℕ)
    (hn : next + n < 2 ^ 64) : allocateFrames x n ⟨memoryMap, next⟩ =
      some (⟨memoryMap, next + n⟩,
        results ((frameAddresses memoryMap).map PhysFrame.mk) next n) := by
  induction n generalizing next with
  | zero => rfl
  | succ n ih =>
    have hshift : next + 1 + n = next + (n + 1) := by omega
    simp only [allocateFrames, allocateFrame_eq hx h (by omega : next + 1 < 2 ^ 64),
      Option.bind_eq_bind, Option.bind_some, ih (next + 1) (by omega), hshift, results,
      List.range_succ_eq_map, List.map_cons, List.map_map, add_zero]
    congr 3
    apply List.map_congr_left
    intro i _
    rw [Function.comp_apply, Nat.succ_eq_add_one, Nat.add_right_comm, Nat.add_assoc]

/-- The first calls return the frames, all others nothing. -/
lemma results_zero (frames : List PhysFrame) (n : ℕ) : results frames 0 n =
    (frames.take n).map some ++ List.replicate (n - frames.length) none := by
  apply List.ext_getElem
  · simp [results]
    omega
  · intro i h₁ h₂
    simp only [results, List.getElem_map, List.getElem_range, zero_add]
    rcases Nat.lt_or_ge i frames.length with hlt | hge
    · rw [List.getElem?_eq_getElem hlt, List.getElem_append_left (by simp [results] at h₁ ⊢; omega)]
      simp
    · rw [List.getElem?_eq_none hge, List.getElem_append_right (by simp [results] at h₁ ⊢; omega)]
      simp

/-- **Every usable frame is handed out once.** If the crate does what it documents, for a map of
physical addresses with disjoint usable regions, the calls return the frames that lie in usable
regions, each once, and after them nothing. -/
theorem frames_handed_out_once (hx : x.Documented) (hdis : DisjointUsable memoryMap)
    (hphys : ∀ f, Usable memoryMap f → f.startAddress < 2 ^ 52) :
    ∃ frames : List PhysFrame, frames.Nodup ∧ (∀ f, f ∈ frames ↔ Usable memoryMap f) ∧
      ∀ n < 2 ^ 64, ∃ a, allocateFrames x n (init memoryMap) =
        some (a, (frames.take n).map some ++ List.replicate (n - frames.length) none) := by
  have hlt : ∀ addr ∈ frameAddresses memoryMap, addr < 2 ^ 52 := fun addr haddr =>
    hphys ⟨addr⟩ (mem_frameAddresses.mp haddr)
  refine ⟨(frameAddresses memoryMap).map PhysFrame.mk, ?_, fun f => ?_, fun n hn => ?_⟩
  · exact (nodup_frameAddresses hdis).map fun a b hab => PhysFrame.mk.inj hab
  · rw [List.mem_map]
    constructor
    · rintro ⟨addr, haddr, rfl⟩
      exact mem_frameAddresses.mp haddr
    · intro hf
      exact ⟨f.startAddress, mem_frameAddresses.mpr hf, rfl⟩
  · have hcalls := allocateFrames_eq hx hlt n 0 (by omega)
    rw [results_zero] at hcalls
    exact ⟨_, hcalls⟩

/-- Functions that do what is documented. -/
def crate : Crate where
  new addr := if addr < 2 ^ 52 then some addr else none
  containingAddress addr := ⟨addr / frameSize * frameSize⟩

lemma crate_documented : crate.Documented where
  new_of_lt _ h := if_pos h
  new_of_ge _ h := if_neg (not_lt.mpr h)
  contains addr := by
    refine ⟨dvd_mul_left _ _, Nat.div_mul_le_self _ _, ?_⟩
    have hmod := Nat.mod_lt addr (by decide : 0 < frameSize)
    have hdiv := Nat.div_add_mod' addr frameSize
    change addr < addr / frameSize * frameSize + frameSize
    omega

/-- Two regions with one in between that is not usable. -/
def smallMap : MemoryMap :=
  [⟨⟨0x1000, 0x3000, ⟨1, rfl⟩, ⟨3, rfl⟩⟩, .usable⟩,
    ⟨⟨0x3000, 0x5000, ⟨3, rfl⟩, ⟨5, rfl⟩⟩, .other⟩,
    ⟨⟨0x5000, 0x6000, ⟨5, rfl⟩, ⟨6, rfl⟩⟩, .usable⟩]

theorem frames_handed_out_once_small : ∃ frames : List PhysFrame, frames.Nodup ∧
    (∀ f, f ∈ frames ↔ Usable smallMap f) ∧ ∃ a, allocateFrames crate 4 (init smallMap) =
      some (a, (frames.take 4).map some ++ List.replicate (4 - frames.length) none) := by
  have hdis : DisjointUsable smallMap := by
    have hregions : usableRegions smallMap =
        [⟨⟨0x1000, 0x3000, ⟨1, rfl⟩, ⟨3, rfl⟩⟩, .usable⟩,
          ⟨⟨0x5000, 0x6000, ⟨5, rfl⟩, ⟨6, rfl⟩⟩, .usable⟩] := rfl
    rw [DisjointUsable, hregions]
    simp [Set.Ico_disjoint_Ico]
  have hphys : ∀ f, Usable smallMap f → f.startAddress < 2 ^ 52 := by
    rintro f ⟨-, r, hr, -, -, hhi⟩
    simp only [smallMap, List.mem_cons, List.not_mem_nil, or_false] at hr
    unfold frameSize at hhi
    rcases hr with rfl | rfl | rfl <;> simp only at hhi <;> omega
  obtain ⟨frames, hnodup, hmem, hcalls⟩ := frames_handed_out_once crate_documented hdis hphys
  exact ⟨frames, hnodup, hmem, hcalls 4 (by decide)⟩

/-- A usable region behind the physical addresses. -/
def farMap : MemoryMap :=
  [⟨⟨2 ^ 52, 2 ^ 52 + 4096, ⟨2 ^ 40, by decide⟩, ⟨2 ^ 40 + 1, by decide⟩⟩, .usable⟩]

/-- With every crate that does what is documented, and there is one, the first call panics. -/
theorem frame_out_of_reach : DisjointUsable farMap ∧ Usable farMap ⟨2 ^ 52⟩ ∧
    crate.Documented ∧ ∀ x : Crate, x.Documented → allocateFrame x (init farMap) = none := by
  refine ⟨List.pairwise_singleton _ _, ⟨⟨2 ^ 40, by decide⟩, _, List.mem_singleton.mpr rfl, rfl,
    le_refl _, le_refl _⟩, crate_documented, fun x hx => ?_⟩
  have haddr : frameAddresses (init farMap).memoryMap = [2 ^ 52] := by decide +kernel
  rw [allocateFrame, haddr, nth, hx.new_of_ge _ (le_refl _)]
  rfl

end RustyOs.Frames
