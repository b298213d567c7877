import RustyOs.LinkedListAccount
import RustyOs.IntrusiveList

/-!
The linked-list allocator in memory (`src/allocator/linked_list.rs`).

A free region begins with its node: the size of the region and the reference to the next node.
The allocator, at `self`, is itself a node, that of a region without bytes, and stands in front
of the others. The search for a region goes from node to node and does not end when the nodes
run in a circle; it is given a number of nodes to look at. The client writes to its allocations,
a byte at a time, between any two calls.

The list of regions of `LinkedList` is what is found in memory at every point of such a run, the
search never looks at more nodes than the heap has room for, and no call touches a byte that the
client has written and not given back.
-/

namespace RustyOs.LinkedListMemory

open RustyOs.Allocator RustyOs.Machine RustyOs.Regions RustyOs.IntrusiveList
open RustyOs.LinkedList (nodeSize nodeAlign allocFromRegion sizeAlign endAddr block Safe)

section calls

/-- The region of the node at `a`. -/
def node (m : Memory) (a : ℕ) : Region := ⟨a, word m a⟩

/-- The address of `next` in the node at `a`. -/
def link (a : ℕ) : ℕ := a + 8

variable (self : ℕ)

def new (m : Memory) : Memory := setWord (setWord m self 0) (link self) 0

/-- `add_free_region`; both assertions must hold. -/
def addFreeRegion (addr size : ℕ) (m : Memory) : Option Memory :=
  if alignUp addr nodeAlign = some addr ∧ nodeSize ≤ size then
    let (next, m) := take m (link self)
    let m := setWord (setWord m addr size) (link addr) next
    some (setWord m (link self) addr)
  else none

/-- `find_region`: the node of the first region that fits, taken from the list, and the start of
the allocation. -/
def findRegion (size align : ℕ) : ℕ → ℕ → Memory → Option (Option (ℕ × ℕ) × Memory)
  | 0, _, _ => none
  | fuel + 1, current, m =>
    let region := word m (link current)
    if region = 0 then some (none, m)
    else do
      match ← allocFromRegion (node m region) size align with
      | some allocStart =>
        let (next, m) := take m (link region)
        let (ret, m) := take m (link current)
        some (some (ret, allocStart), setWord m (link current) next)
      | none => findRegion size align fuel region m

def alloc (fuel : ℕ) (layout : Layout) (m : Memory) : Option (Option ℕ × Memory) := do
  let (size, align) ← sizeAlign layout
  match ← findRegion size align fuel self m with
  | (some (region, allocStart), m) =>
    let allocEnd ← checkedAdd allocStart size
    let regionEnd ← endAddr (node m region)
    if regionEnd < allocEnd then none
    else
      let excessiveSize := regionEnd - allocEnd
      let m ← if 0 < excessiveSize then addFreeRegion self allocEnd excessiveSize m else some m
      some (some allocStart, m)
  | (none, m) => some (none, m)

def dealloc (ptr : ℕ) (layout : Layout) (m : Memory) : Option Memory := do
  let (size, _) ← sizeAlign layout
  addFreeRegion self ptr size m

/-- `init` of a new allocator. -/
def init (heapStart heapSize : ℕ) (m : Memory) : Option Memory :=
  addFreeRegion self heapStart heapSize (new self m)

end calls

/-! ### The nodes -/

/-- The memory of the node at `a`. -/
def nodeAt (a : ℕ) : Region := ⟨a, nodeSize⟩

lemma size_subset (a : ℕ) : (wordAt a).bytes ⊆ (nodeAt a).bytes :=
  Region.Inside.bytes_subset ⟨le_refl _, Nat.add_le_add_left (by decide : 8 ≤ 16) a⟩

lemma link_subset (a : ℕ) : (wordAt (link a)).bytes ⊆ (nodeAt a).bytes :=
  Region.Inside.bytes_subset ⟨Nat.le_add_right a 8, le_refl (a + 16)⟩

lemma disjoint_link_size (a : ℕ) : Disjoint (wordAt (link a)).bytes (wordAt a).bytes := by
  rw [Region.disjoint_iff]
  simp only [wordAt, link, Region.stop]
  omega

variable {m m' : Memory} {self current fuel size align addr : ℕ} {rs : List Region}

/-- The list found from the node at `base` on. -/
structure Found (base : ℕ) (m : Memory) (rs : List Region) : Prop where
  linked : Linked 8 m base (rs.map Region.start)
  sizes : ∀ r ∈ rs, word m r.start = r.size

/-- The nodes at the addresses do not overlap. -/
def Apart (as : List ℕ) : Prop :=
  as.Pairwise fun a b => Disjoint (nodeAt a).bytes (nodeAt b).bytes

lemma Apart.disjoint {as : List ℕ} (h : Apart as) {a b : ℕ} (ha : a ∈ as) (hb : b ∈ as)
    (hab : a ≠ b) : Disjoint (nodeAt a).bytes (nodeAt b).bytes :=
  haveI : Std.Symm fun a b => Disjoint (nodeAt a).bytes (nodeAt b).bytes := ⟨fun _ _ h => h.symm⟩
  List.Pairwise.forall h ha hb hab

lemma Apart.link_size {as : List ℕ} (h : Apart as) {a b : ℕ} (ha : a ∈ as) (hb : b ∈ as) :
    Disjoint (wordAt (link a)).bytes (wordAt b).bytes := by
  by_cases hab : a = b
  · exact hab ▸ disjoint_link_size a
  · exact (h.disjoint ha hb hab).mono (link_subset a) (size_subset b)

lemma Found.sizes_of_sameBut (h : Found current m rs)
    (hapart : Apart (current :: rs.map Region.start)) (as : List ℕ)
    (has : as ⊆ current :: rs.map Region.start) (hsame : SameBut (as.map link) m m') :
    ∀ r ∈ rs, word m' r.start = r.size := by
  intro r hr
  rw [← h.sizes r hr]
  refine hsame.word (List.forall_mem_map.mpr fun a ha => ?_)
  exact hapart.link_size (has ha) (List.mem_cons_of_mem _ (List.mem_map_of_mem hr))

lemma Found.unlink {r : Region} (h : Found current m (r :: rs))
    (hapart : Apart (current :: (r :: rs).map Region.start)) :
    let m₁ := (take m (link r.start)).2
    let m₃ := setWord (take m₁ (link current)).2 (link current) (take m (link r.start)).1
    Found current m₃ rs ∧ SameBut [link current, link r.start] m m₃ ∧
      (take m₁ (link current)).1 = r.start := by
  intro m₁ m₃
  obtain ⟨hne, hrest⟩ := List.pairwise_cons.mp hapart
  have hc : ∀ {m v}, SameBut [link current, link r.start] m (setWord m (link current) v) :=
    sameBut_setWord (by simp)
  have hr : SameBut [link current, link r.start] m m₁ := sameBut_setWord (by simp)
  have hsame : SameBut [link current, link r.start] m m₃ := (hr.trans hc).trans hc
  have hlink := h.linked
  rw [List.map_cons, linked_cons] at hlink
  refine ⟨⟨?_, ?_⟩, hsame, ?_⟩
  · refine h.linked.pop (word_setWord word_lt) fun x hx => ?_
    refine hsame.word (List.forall_mem_cons.mpr ⟨?_, List.forall_mem_singleton.mpr ?_⟩)
    · exact (hne x (List.mem_cons_of_mem _ hx)).mono (link_subset _) (link_subset _)
    · exact ((List.pairwise_cons.mp hrest).1 x hx).mono (link_subset _) (link_subset _)
  · have := h.sizes_of_sameBut hapart [current, r.start] (by simp) hsame
    exact fun r' hr' => this r' (List.mem_cons_of_mem _ hr')
  · refine (word_setWord_of_disjoint ?_).trans hlink.1.1
    exact ((hne r.start List.mem_cons_self).mono (link_subset _) (link_subset _)).symm

/-- **The search.** It finds in memory what the search in the list finds, looking at no more
nodes than the list has, and takes it from the list. -/
lemma findRegion_spec {o : Option (Region × ℕ × List Region)}
    (ho : LinkedList.findRegion size align rs = some o) (h : Found current m rs)
    (hapart : Apart (current :: rs.map Region.start)) (hfuel : rs.length < fuel) :
    ∃ m', findRegion size align fuel current m =
        some (o.map fun f => (f.1.start, f.2.1), m') ∧
      Found current m' ((o.map fun f => f.2.2).getD rs) ∧
      SameBut ((current :: rs.map Region.start).map link) m m' := by
  induction rs generalizing current fuel o with
  | nil =>
    obtain ⟨fuel, rfl⟩ := Nat.exists_eq_succ_of_ne_zero (by omega : fuel ≠ 0)
    obtain rfl := Option.some_inj.mp ho
    refine ⟨m, ?_, h, sameBut_refl⟩
    rw [findRegion]
    exact if_pos (linked_nil.mp h.linked)
  | cons r rs ih =>
    obtain ⟨fuel, rfl⟩ := Nat.exists_eq_succ_of_ne_zero (by omega : fuel ≠ 0)
    have hlink := h.linked
    rw [List.map_cons, linked_cons] at hlink
    obtain ⟨⟨hword, hpos⟩, htail⟩ := hlink
    have hnode : node m r.start = r := by rw [node, h.sizes r List.mem_cons_self]
    have hword' : word m (link current) = r.start := hword
    rw [LinkedList.findRegion] at ho
    obtain ⟨t, ht, ho⟩ := Option.bind_eq_some_iff.mp ho
    simp only [findRegion, hword', hnode, ht, if_neg hpos, Option.bind_eq_bind, Option.bind_some]
    cases t with
    | some start =>
      obtain rfl := Option.some_inj.mp ho
      obtain ⟨hfound, hsame, hret⟩ := h.unlink hapart
      refine ⟨_, ?_, hfound, hsame.mono (by simp)⟩
      simp only [hret]
      rfl
    | none =>
      -- the rest of the list is found from the next node on
      obtain ⟨f, hf, ho⟩ := Option.bind_eq_some_iff.mp ho
      obtain rfl := Option.some_inj.mp ho
      obtain ⟨m', hm', hfound, hsame⟩ := ih hf
        ⟨htail, fun r' hr' => h.sizes r' (List.mem_cons_of_mem _ hr')⟩
        (List.pairwise_cons.mp hapart).2 (by simpa using hfuel)
      have hrest : ((f.map fun f => (f.1, f.2.1, r :: f.2.2)).map fun f => f.2.2).getD (r :: rs) =
          r :: (f.map fun f => f.2.2).getD rs := by
        cases f <;> rfl
      have hstay : word m' (link current) = r.start := by
        rw [← hword']
        refine hsame.word (List.forall_mem_map.mpr fun a ha => ?_)
        exact (((List.pairwise_cons.mp hapart).1 a ha).mono (link_subset _) (link_subset _)).symm
      refine ⟨m', ?_, ?_, hsame.mono (List.subset_cons_self _ _)⟩
      · rw [hm', Option.map_map]
        rfl
      · rw [hrest]
        refine ⟨linked_cons.mpr ⟨⟨hstay, hpos⟩, hfound.linked⟩,
          List.forall_mem_cons.mpr ⟨?_, hfound.sizes⟩⟩
        exact h.sizes_of_sameBut hapart _ (List.subset_cons_self _ _) hsame r List.mem_cons_self

lemma addFreeRegion_spec (h : Found self m rs) (ha : nodeAlign ∣ addr) (hs : nodeSize ≤ size)
    (hpos : addr ≠ 0) (haddr : addr < 2 ^ 64) (hsize : size < 2 ^ 64)
    (hapart : Apart (self :: addr :: rs.map Region.start)) :
    ∃ m', addFreeRegion self addr size m = some m' ∧ Found self m' (⟨addr, size⟩ :: rs) ∧
      SameBut [link self, addr, link addr] m m' := by
  refine ⟨_, if_pos ⟨alignUp_of_dvd (by decide) ha, hs⟩, ?_⟩
  obtain ⟨hself, hrest⟩ := List.pairwise_cons.mp hapart
  obtain ⟨hnew, -⟩ := List.pairwise_cons.mp hrest
  have hne := hself addr List.mem_cons_self
  have hlinks := hne.mono (link_subset self) (link_subset addr)
  have hset : ∀ {m a v}, a ∈ [link self, addr, link addr] →
      SameBut [link self, addr, link addr] m (setWord m a v) := sameBut_setWord
  have hsame := (((hset (m := m) (v := 0) (a := link self) (by simp)).trans
    (hset (v := size) (a := addr) (by simp))).trans
      (hset (v := word m (link self)) (a := link addr) (by simp))).trans
        (hset (v := addr) (a := link self) (by simp))
  -- the words of the other nodes
  have hother : ∀ x ∈ rs.map Region.start, ∀ w, (wordAt w).bytes ⊆ (nodeAt x).bytes →
      ∀ a ∈ [link self, addr, link addr], Disjoint (wordAt a).bytes (wordAt w).bytes := by
    intro x hx w hw a ha
    simp only [List.mem_cons, List.not_mem_nil, or_false] at ha
    rcases ha with rfl | rfl | rfl
    · exact (hself x (List.mem_cons_of_mem _ hx)).mono (link_subset self) hw
    · exact (hnew x hx).mono (size_subset a) hw
    · exact (hnew x hx).mono (link_subset addr) hw
  refine ⟨⟨?_, ?_⟩, hsame⟩
  · refine h.linked.push hpos (word_setWord haddr) ?_ fun x hx =>
      hsame.word (hother x hx _ (link_subset x))
    exact (word_setWord_of_disjoint hlinks).trans (word_setWord word_lt)
  · refine List.forall_mem_cons.mpr ⟨?_, fun r hr => ?_⟩
    · rw [word_setWord_of_disjoint (hne.mono (link_subset self) (size_subset addr)),
        word_setWord_of_disjoint (disjoint_link_size addr), word_setWord hsize]
    · rw [hsame.word (hother _ (List.mem_map_of_mem hr) _ (size_subset _)), h.sizes r hr]

/-! ### The calls -/

/-- Memory has changed in the node of the allocator and in the regions only. -/
def Untouched (self : ℕ) (rs : List Region) (m m' : Memory) : Prop :=
  ∀ x, x ∉ (nodeAt self).bytes → (∀ r ∈ rs, x ∉ r.bytes) → m' x = m x

lemma untouched_of_sameBut {ws : List ℕ} (h : SameBut ws m m')
    (hws : ∀ a ∈ ws, (wordAt a).bytes ⊆ (nodeAt self).bytes ∨
      ∃ r ∈ rs, (wordAt a).bytes ⊆ r.bytes) : Untouched self rs m m' := by
  refine fun x hself hrs => h x fun a ha hx => ?_
  rcases hws a ha with hsub | ⟨r, hr, hsub⟩
  · exact hself (hsub hx)
  · exact hrs r hr (hsub hx)

lemma Untouched.mono {rs' : List Region} (h : Untouched self rs m m')
    (hrs : ∀ r ∈ rs, ∃ r' ∈ rs', r.Inside r') : Untouched self rs' m m' := by
  refine fun x hself hout => h x hself fun r hr hx => ?_
  obtain ⟨r', hr', hin⟩ := hrs r hr
  exact hout r' hr' (hin.bytes_subset hx)

lemma Untouched.trans {m'' : Memory} (h : Untouched self rs m m') (h' : Untouched self rs m' m'') :
    Untouched self rs m m'' := fun x hself hrs => (h' x hself hrs).trans (h x hself hrs)

lemma Untouched.eqOn {u : Set ℕ} (h : Untouched self rs m m')
    (hself : Disjoint (nodeAt self).bytes u) (hrs : ∀ r ∈ rs, Disjoint r.bytes u) :
    Set.EqOn m m' u :=
  fun x hx => (h x (fun hn => Set.disjoint_left.mp hself hn hx)
    fun r hr hxr => Set.disjoint_left.mp (hrs r hr) hxr hx).symm

variable {memory : Region}

/-- Regions that can hold their nodes. -/
def Roomy (memory : Region) (rs : List Region) : Prop :=
  ∀ r ∈ rs, nodeSize ≤ r.size ∧ r.Inside memory

lemma nodeAt_inside {r : Region} (h : nodeSize ≤ r.size) : (nodeAt r.start).Inside r :=
  ⟨le_refl _, Nat.add_le_add_left h _⟩

lemma apart_of_separate (hstatic : Disjoint (nodeAt self).bytes memory.bytes)
    (hrs : Roomy memory rs) (hsep : Separate rs) : Apart (self :: rs.map Region.start) := by
  refine List.pairwise_cons.mpr ⟨List.forall_mem_map.mpr fun r hr => ?_, ?_⟩
  · exact hstatic.mono_right ((nodeAt_inside (hrs r hr).1).trans (hrs r hr).2).bytes_subset
  · refine List.pairwise_map.mpr (hsep.imp_of_mem fun {a b} ha hb hab => ?_)
    exact hab.mono (nodeAt_inside (hrs a ha).1).bytes_subset
      (nodeAt_inside (hrs b hb).1).bytes_subset

/-- What the proofs of the calls assume of the heap: the allocator is outside, and no address in
it is null or too large. -/
structure Placed (base : ℕ) (memory : Region) : Prop where
  static : Disjoint (nodeAt base).bytes memory.bytes
  pos : 0 < memory.start
  stop : memory.stop ≤ 2 ^ 63

lemma Placed.add (hp : Placed self memory) (h : Found self m rs) {r : Region}
    (ha : nodeAlign ∣ r.start) (hrs : Roomy memory (r :: rs)) (hsep : Separate (r :: rs)) :
    ∃ m', addFreeRegion self r.start r.size m = some m' ∧ Found self m' (r :: rs) ∧
      Untouched self [r] m m' := by
  obtain ⟨hsize, hin⟩ := hrs r List.mem_cons_self
  have hpos := hp.pos
  have hstop := hp.stop
  simp only [Region.Inside, Region.stop] at hin hstop
  obtain ⟨m', hm', hfound, hsame⟩ := addFreeRegion_spec h ha hsize (by omega) (by omega) (by omega)
    (apart_of_separate hp.static hrs hsep)
  refine ⟨m', hm', hfound, untouched_of_sameBut hsame ?_⟩
  have hnode := (nodeAt_inside hsize).bytes_subset
  simp only [List.forall_mem_cons, List.not_mem_nil, false_implies, implies_true, and_true]
  exact ⟨.inl (link_subset self), .inr ⟨r, List.mem_cons_self, (size_subset _).trans hnode⟩,
    .inr ⟨r, List.mem_cons_self, (link_subset _).trans hnode⟩⟩

variable {t : LinkedList.Heap} {layout : Layout} {ptr : ℕ}

lemma roomy_of_safe (h : Safe memory t) : Roomy memory t.allocator.regions :=
  fun r hr => (h.region r hr).2

lemma Placed.alloc (hp : Placed self memory) (hsafe : Safe memory t)
    (h : Found self m t.allocator.regions) (hfuel : t.allocator.regions.length < fuel)
    (hsa : sizeAlign layout = some (size, align)) :
    ∃ a p m', LinkedList.alloc t.allocator layout = some (a, p) ∧
      alloc self fuel layout m = some (p, m') ∧ Found self m' a.regions ∧
      Untouched self t.allocator.regions m m' := by
  obtain ⟨⟨-, -, hsize8⟩, -, halign8, halign, hle⟩ := LinkedList.sizeAlign_spec hsa
  have hroomy := roomy_of_safe hsafe
  have hsep : Separate t.allocator.regions := (List.pairwise_append.mp hsafe.separate).1
  have hstop : ∀ r ∈ t.allocator.regions, r.stop ≤ 2 ^ 63 := fun r hr =>
    (hroomy r hr).2.2.trans hp.stop
  have hapart := apart_of_separate hp.static hroomy hsep
  obtain ⟨o, ho⟩ := LinkedList.exists_findRegion fun r hr =>
    LinkedList.exists_allocFromRegion size (hstop r hr)
      ((by decide : 0 < nodeSize).trans_le (hroomy r hr).1) halign hle
  obtain ⟨m₁, hm₁, hfound, hsame⟩ := findRegion_spec ho h hapart hfuel
  have hun : Untouched self t.allocator.regions m m₁ := by
    refine untouched_of_sameBut hsame (List.forall_mem_map.mpr (List.forall_mem_cons.mpr
      ⟨.inl (link_subset self), List.forall_mem_map.mpr fun r hr => .inr ⟨r, hr, ?_⟩⟩))
    exact (link_subset _).trans (nodeAt_inside (hroomy r hr).1).bytes_subset
  rcases o with _ | ⟨r, start, rest⟩
  · refine ⟨t.allocator, none, m₁, ?_, ?_, hfound, hun⟩
    · simp only [LinkedList.alloc, hsa, ho, Option.bind_eq_bind, Option.bind_some]
    · simp only [LinkedListMemory.alloc, hsa, hm₁, Option.bind_eq_bind, Option.bind_some,
        Option.map_none]
  · obtain ⟨hperm, hfrom⟩ := LinkedList.findRegion_some ho
    have hr : r ∈ t.allocator.regions := hperm.mem_iff.mpr (by simp)
    obtain ⟨hge, hdvd, hfit, hend⟩ := LinkedList.allocFromRegion_spec (hstop r hr) hfrom
    have hnode : node m₁ r.start = r := by
      rw [node, h.sizes_of_sameBut hapart _ (List.Subset.refl _) hsame r hr]
    have hadd : checkedAdd start size = some (start + size) := by
      have := hstop r hr
      exact checkedAdd_eq_some.mpr ⟨by omega, rfl⟩
    -- what both do behind the search
    simp only [LinkedList.alloc, LinkedListMemory.alloc, hsa, ho, hm₁, hnode, hadd,
      Option.map_some, LinkedList.endAddr_of_le (hstop r hr), Option.bind_eq_bind,
      Option.bind_some, if_neg (not_lt.mpr hfit)]
    rcases hend with heq | hexcess
    · refine ⟨⟨rest⟩, some start, m₁, ?_, ?_, hfound, hun⟩ <;>
        simp only [heq, Nat.sub_self, lt_irrefl, if_false]
    · have hpos : 0 < r.stop - (start + size) := (by decide : 0 < nodeSize).trans_le hexcess
      have hrem : (Region.mk (start + size) (r.stop - (start + size))).Inside r := by
        simp only [Region.Inside, Region.stop, nodeSize] at hexcess ⊢
        omega
      have h8 : nodeAlign ∣ start + size := dvd_add (halign8.trans hdvd) hsize8
      obtain ⟨m₂, hm₂, hfound₂, hun₂⟩ := hp.add hfound (r := ⟨start + size, _⟩) h8
        (List.forall_mem_cons.mpr ⟨⟨hexcess, hrem.trans (hroomy r hr).2⟩, fun q hq =>
          hroomy q (hperm.mem_iff.mpr (List.mem_cons_of_mem _ hq))⟩)
        ((hsep.perm hperm).shrink hrem)
      refine ⟨_, some start, m₂, ?_, ?_, hfound₂, hun.trans (hun₂.mono ?_)⟩
      · rw [if_pos hpos, LinkedList.addFreeRegion_eq h8 hexcess]
        rfl
      · rw [if_pos hpos, hm₂]
        rfl
      · exact List.forall_mem_singleton.mpr ⟨r, hr, hrem⟩

lemma Placed.dealloc (hp : Placed self memory) (hsafe : Safe memory t)
    (h : Found self m t.allocator.regions) (hok : (ptr, layout) ∈ t.live) :
    ∃ a m', LinkedList.dealloc t.allocator ptr layout = some a ∧
      dealloc self ptr layout m = some m' ∧ Found self m' a.regions ∧
      Untouched self [block (ptr, layout)] m m' := by
  obtain ⟨size, align, hsa, hdvd, hin⟩ := hsafe.live _ hok
  obtain ⟨⟨-, h16, -⟩, -, halign8, -, -⟩ := LinkedList.sizeAlign_spec hsa
  have h8 : nodeAlign ∣ ptr := halign8.trans hdvd
  obtain ⟨hfree, -, hcross⟩ := List.pairwise_append.mp hsafe.separate
  have hsep : Separate (block (ptr, layout) :: t.allocator.regions) :=
    separate_cons.mpr ⟨fun r hr => (hcross r hr _ (List.mem_map_of_mem hok)).symm, hfree⟩
  rw [LinkedList.block_eq hsa] at hin hsep ⊢
  obtain ⟨m', hm', hfound, hun⟩ := hp.add h h8
    (List.forall_mem_cons.mpr ⟨⟨h16, hin⟩, roomy_of_safe hsafe⟩) hsep
  refine ⟨_, m', ?_, ?_, hfound, hun⟩
  · simp only [LinkedList.dealloc, hsa, Option.bind_eq_bind, Option.bind_some]
    exact LinkedList.addFreeRegion_eq h8 h16
  · simp only [LinkedListMemory.dealloc, hsa, Option.bind_eq_bind, Option.bind_some, hm']

/-! ### Runs -/

/-- Memory, the allocations of the client, and what the client has written to them. -/
structure Heap where
  memory : Memory
  live : List (ℕ × Layout)
  written : View

inductive Event
  | alloc (layout : Layout)
  | dealloc (ptr : ℕ) (layout : Layout)
  /-- The client writes a byte. -/
  | write (addr : ℕ) (value : UInt8)

/-- The memory the client has asked for. -/
def asked (b : ℕ × Layout) : Region := ⟨b.1, b.2.size⟩

def Heap.next (self fuel : ℕ) (s : Heap) : Event → Option Heap
  | .alloc layout => (alloc self fuel layout s.memory).map fun r =>
      { s with memory := r.2, live := (r.1.map fun p => (p, layout)).toList ++ s.live }
  | .dealloc ptr layout => (dealloc self ptr layout s.memory).map fun m =>
      { memory := m
        live := s.live.erase (ptr, layout)
        written := s.written.forget (asked (ptr, layout)) }
  | .write addr value =>
    some
      { s with
        memory := Function.update s.memory addr value
        written := Function.update s.written addr (some value) }

/-- The layout can be adjusted; the client writes to what it was given, and gives that back. -/
def Valid (s : Heap) : Event → Prop
  | .alloc layout => (sizeAlign layout).isSome
  | .dealloc ptr layout => (ptr, layout) ∈ s.live
  | .write addr _ => ∃ b ∈ s.live, addr ∈ (asked b).bytes

/-- The event as the list sees it, if it does. -/
def event : Event → Option LinkedList.Event
  | .alloc layout => some (.alloc layout)
  | .dealloc ptr layout => some (.dealloc ptr layout)
  | .write _ _ => none

/-- What is found in memory: the list of `t`, and what the client has written. -/
structure Stands (base : ℕ) (s : Heap) (t : LinkedList.Heap) : Prop where
  live : s.live = t.live
  found : Found base s.memory t.allocator.regions
  kept : Kept (s.live.map asked) s.written s.memory

variable {s s' : Heap} {b : ℕ × Layout}

lemma asked_inside (hsafe : Safe memory t) (hb : b ∈ t.live) : (asked b).Inside (block b) := by
  obtain ⟨size, align, hsa, -, -⟩ := hsafe.live b hb
  rw [LinkedList.block_eq hsa]
  exact ⟨le_refl _, Nat.add_le_add_left (LinkedList.sizeAlign_spec hsa).1.1 _⟩

lemma block_inside (hsafe : Safe memory t) (hb : b ∈ t.live) : (block b).Inside memory := by
  obtain ⟨_, _, -, -, hin⟩ := hsafe.live b hb
  exact hin

lemma disjoint_region (hsafe : Safe memory t) (hb : b ∈ t.live) {r : Region}
    (hr : r ∈ t.allocator.regions) : Disjoint r.bytes (asked b).bytes :=
  ((List.pairwise_append.mp hsafe.separate).2.2 r hr _ (List.mem_map_of_mem hb)).mono_right
    (asked_inside hsafe hb).bytes_subset

lemma disjoint_static (hp : Placed self memory) (hsafe : Safe memory t) (hb : b ∈ t.live) :
    Disjoint (nodeAt self).bytes (asked b).bytes :=
  hp.static.mono_right ((asked_inside hsafe hb).trans (block_inside hsafe hb)).bytes_subset

lemma disjoint_other (hsafe : Safe memory t) (hb : b ∈ t.live) {b' : ℕ × Layout}
    (hb' : b' ∈ t.live.erase b) : Disjoint (block b).bytes (asked b').bytes := by
  have hlive := Separate.perm (List.pairwise_append.mp hsafe.separate).2.1
    ((List.perm_cons_erase hb).map block)
  rw [List.map_cons, separate_cons] at hlive
  exact (hlive.1 _ (List.mem_map_of_mem hb')).mono_right
    (asked_inside hsafe (List.mem_of_mem_erase hb')).bytes_subset

lemma Stands.alloc (h : Stands self s t) (hp : Placed self memory) (hsafe : Safe memory t)
    (hfuel : t.allocator.regions.length < fuel) (hok : (sizeAlign layout).isSome) :
    ∃ s' t', s.next self fuel (.alloc layout) = some s' ∧ t.next (.alloc layout) = some t' ∧
      Stands self s' t' := by
  obtain ⟨⟨size, align⟩, hsa⟩ := Option.isSome_iff_exists.mp hok
  obtain ⟨a, p, m', ha, hm', hfound, hun⟩ := hp.alloc hsafe h.found hfuel hsa
  refine ⟨_, _, by rw [Heap.next, hm']; rfl, by rw [LinkedList.Heap.next, ha]; rfl, ?_⟩
  refine ⟨congrArg _ h.live, hfound, (h.kept.frame (List.forall_mem_map.mpr fun b hb => ?_)).mono
    (List.map_subset _ (List.subset_append_right _ _))⟩
  rw [h.live] at hb
  exact hun.eqOn (disjoint_static hp hsafe hb) fun r hr => disjoint_region hsafe hb hr

lemma Stands.dealloc (h : Stands self s t) (hp : Placed self memory) (hsafe : Safe memory t)
    (hok : (ptr, layout) ∈ t.live) :
    ∃ s' t', s.next self fuel (.dealloc ptr layout) = some s' ∧
      t.next (.dealloc ptr layout) = some t' ∧ Stands self s' t' := by
  obtain ⟨a, m', ha, hm', hfound, hun⟩ := hp.dealloc hsafe h.found hok
  refine ⟨_, _, by rw [Heap.next, hm']; rfl, by rw [LinkedList.Heap.next, ha]; rfl, ?_⟩
  refine ⟨by rw [h.live], hfound, Kept.frame (h.kept.forget ?_) ?_⟩
  · refine List.forall_mem_map.mpr fun b hb => ?_
    by_cases hbp : b = (ptr, layout)
    · exact .inl (hbp ▸ rfl)
    · exact .inr (List.mem_map_of_mem ((List.mem_erase_of_ne hbp).mpr hb))
  · refine List.forall_mem_map.mpr fun b hb => ?_
    rw [h.live] at hb
    exact hun.eqOn (disjoint_static hp hsafe (List.mem_of_mem_erase hb))
      (List.forall_mem_singleton.mpr (disjoint_other hsafe hok hb))

lemma Found.write (h : Found self m t.allocator.regions) (hp : Placed self memory)
    (hsafe : Safe memory t) (hb : b ∈ t.live) {x : ℕ} (hx : x ∈ (asked b).bytes) (v : UInt8) :
    Found self (Function.update m x v) t.allocator.regions := by
  have hword : ∀ a, Disjoint (wordAt a).bytes (asked b).bytes →
      word (Function.update m x v) a = word m a := fun a ha => by
    refine word_congr fun y hy => Function.update_of_ne ?_ v m
    exact fun hyx => Set.disjoint_left.mp ha hy (hyx ▸ hx)
  have hnode : ∀ r ∈ t.allocator.regions, Disjoint (nodeAt r.start).bytes (asked b).bytes :=
    fun r hr => (disjoint_region hsafe hb hr).mono_left
      (nodeAt_inside (roomy_of_safe hsafe r hr).1).bytes_subset
  refine ⟨h.linked.congr (List.forall_mem_cons.mpr ⟨?_, List.forall_mem_map.mpr fun r hr => ?_⟩),
    fun r hr => ?_⟩
  · exact hword _ ((disjoint_static hp hsafe hb).mono_left (link_subset self))
  · exact hword _ ((hnode r hr).mono_left (link_subset _))
  · rw [hword _ ((hnode r hr).mono_left (size_subset _)), h.sizes r hr]

lemma Stands.step (h : Stands self s t) (hp : Placed self memory) (hsafe : Safe memory t)
    (hfuel : t.allocator.regions.length < fuel) {e : Event} (hok : Valid s e) :
    ∃ s' t', s.next self fuel e = some s' ∧
      Follows LinkedList.Heap.next LinkedList.Valid t (event e) t' ∧ Stands self s' t' := by
  cases e with
  | alloc layout =>
    obtain ⟨s', t', hs, ht, h'⟩ := h.alloc hp hsafe hfuel hok
    exact ⟨s', t', hs, ⟨hok, ht⟩, h'⟩
  | dealloc ptr layout =>
    have hlive : (ptr, layout) ∈ t.live := h.live ▸ hok
    obtain ⟨s', t', hs, ht, h'⟩ := h.dealloc hp hsafe hlive
    exact ⟨s', t', hs, ⟨hlive, ht⟩, h'⟩
  | write addr value =>
    obtain ⟨b, hb, hx⟩ := hok
    exact ⟨_, t, rfl, rfl, h.live, h.found.write hp hsafe (h.live ▸ hb) hx value,
      h.kept.write (List.mem_map_of_mem hb) hx value⟩

/-! ### Whole runs -/

lemma regions_length_le {n : ℕ} (hsafe : Safe memory t)
    (hacc : LinkedListAccount.account t ≤ n) : t.allocator.regions.length ≤ n / nodeSize := by
  have hsum := List.card_nsmul_le_sum (t.allocator.regions.map Region.size) nodeSize
    (List.forall_mem_map.mpr fun r hr => (hsafe.region r hr).2.1)
  rw [List.length_map, smul_eq_mul] at hsum
  rw [Nat.le_div_iff_mul_le (by decide)]
  unfold LinkedListAccount.account at hacc
  omega

lemma givesBack_of_valid {e : LinkedList.Event} (h : LinkedList.Valid t e) :
    LinkedListAccount.GivesBack t e := by
  cases e with
  | alloc layout => trivial
  | dealloc ptr layout => exact h

lemma found_new (m : Memory) : Found self (new self m) [] :=
  ⟨linked_nil.mpr (word_setWord (by decide)), by simp⟩

/-- The state of a run, and that of the run on the list. -/
structure Simulated (base : ℕ) (memory : Region) (s : Heap) (t : LinkedList.Heap) : Prop where
  safe : Safe memory t
  account : LinkedListAccount.account t ≤ memory.size
  stands : Stands base s t

lemma Simulated.step (h : Simulated self memory s t) (hp : Placed self memory)
    (hfuel : memory.size / nodeSize < fuel) {e : Event} (hok : Valid s e) :
    ∃ s' t', s.next self fuel e = some s' ∧
      Follows LinkedList.Heap.next LinkedList.Valid t (event e) t' ∧
      Simulated self memory s' t' := by
  obtain ⟨s', t', hs, hf, hst⟩ := h.stands.step hp h.safe
    ((regions_length_le h.safe h.account).trans_lt hfuel) hok
  refine ⟨s', t', hs, hf, ?_, ?_, hst⟩
  · exact hf.inv h.safe fun _ hok ht => h.safe.next hp.stop hok ht
  · refine hf.inv (I := fun t => LinkedListAccount.account t ≤ memory.size) h.account
      fun _ hok ht => ?_
    exact (LinkedListAccount.account_next (givesBack_of_valid hok) ht).1.trans h.account

/-- **The free list is in memory.** After `init` of an aligned piece of the lower half of memory,
whatever the client writes to its allocations between the calls, the list found in memory is at
every point that of a run of the allocator on lists, the calls on memory and on the list have
the same effect, the search ends within as many nodes as the heap has room for, and every byte
the client has written to an allocation is there until it is written again or given back. -/
theorem list_in_memory {start size : ℕ} (hpos : 0 < start) (halign : 8 ∣ start)
    (hsize : 16 ≤ size) (hend : start + size ≤ 2 ^ 63)
    (hdisj : Disjoint (nodeAt self).bytes (Region.mk start size).bytes)
    (hfuel : size / nodeSize < fuel) (m : Memory) :
    ∃ m₀ a, init self start size m = some m₀ ∧ LinkedList.init start size = some a ∧
      ∀ s, Reach (Heap.next self fuel) Valid ⟨m₀, [], fun _ => none⟩ s →
        ∃ t, Reach LinkedList.Heap.next LinkedList.Valid ⟨a, []⟩ t ∧ Stands self s t ∧
          ∀ e, Valid s e → ∃ s' t', s.next self fuel e = some s' ∧
            Follows LinkedList.Heap.next LinkedList.Valid t (event e) t' ∧ Stands self s' t' := by
  have hp : Placed self ⟨start, size⟩ := ⟨hdisj, hpos, hend⟩
  obtain ⟨m₀, hm₀, hfound, -⟩ := hp.add (found_new m) (r := ⟨start, size⟩) halign
    (List.forall_mem_singleton.mpr ⟨hsize, le_refl _, le_refl _⟩) (List.pairwise_singleton _ _)
  have ha := LinkedList.addFreeRegion_eq (a := .new) halign hsize
  refine ⟨m₀, _, hm₀, ha, fun s hs => ?_⟩
  have hinit : Simulated self ⟨start, size⟩ ⟨m₀, [], fun _ => none⟩ ⟨⟨[⟨start, size⟩]⟩, []⟩ :=
    ⟨LinkedList.reach_safe ha hend .start, by simp [LinkedListAccount.account], rfl, hfound,
      kept_nothing⟩
  obtain ⟨t, hr, hsim⟩ := hs.simulates (Simulated self ⟨start, size⟩) event hinit
    fun s t e s' hsim hok hs => by
      obtain ⟨s₁, t', hs₁, hf, hsim'⟩ := hsim.step hp hfuel hok
      obtain rfl := Option.some_inj.mp (hs.symm.trans hs₁)
      exact ⟨t', hf, hsim'⟩
  refine ⟨t, hr, hsim.stands, fun e he => ?_⟩
  obtain ⟨s', t', hs', hf, hsim'⟩ := hsim.step hp hfuel he
  exact ⟨s', t', hs', hf, hsim'.stands⟩

/-- The heap of the kernel, with the allocator below it: 24 bytes are given out and written to. -/
theorem list_in_memory_kernel : ∃ m₀ s, init 4096 heapStart heapSize (fun _ => 0) = some m₀ ∧
    Reach (Heap.next 4096 6401) Valid ⟨m₀, [], fun _ => none⟩ s ∧
      s.live.map asked = [⟨heapStart, 24⟩] ∧ s.written heapStart = some 7 ∧
      s.memory heapStart = 7 := by
  obtain ⟨m₀, a, hm₀, ha, hrun⟩ := list_in_memory (by decide : 0 < heapStart)
    (by decide : 8 ∣ heapStart) (by decide : 16 ≤ heapSize) (by decide)
    (Region.disjoint_iff.mpr (by decide) : Disjoint (nodeAt 4096).bytes _)
    (by decide : heapSize / nodeSize < 6401) fun _ => 0
  have hgiven : ((init 4096 heapStart heapSize fun _ => 0).bind fun m₀ =>
      (Heap.mk m₀ [] fun _ => none).next 4096 6401 (.alloc ⟨24, 8, ⟨3, rfl⟩, by decide⟩)).map
        (fun s => s.live.map asked) = some [⟨heapStart, 24⟩] := by
    decide +kernel
  rw [hm₀, Option.bind_some] at hgiven
  obtain ⟨s₁, hs₁, hlive⟩ := Option.map_eq_some_iff.mp hgiven
  have h₁ : Reach (Heap.next 4096 6401) Valid ⟨m₀, [], fun _ => none⟩ s₁ :=
    .step (e := .alloc ⟨24, 8, ⟨3, rfl⟩, by decide⟩) .start rfl hs₁
  obtain ⟨b, hb, hasked⟩ := List.mem_map.mp (hlive ▸ List.mem_singleton_self _)
  have h₂ := Reach.step (e := Event.write heapStart 7) h₁
    ⟨b, hb, by rw [hasked]; exact ⟨le_refl _, by decide⟩⟩ rfl
  obtain ⟨t, -, hst, -⟩ := hrun _ h₂
  have hwritten := Function.update_self heapStart (some 7) s₁.written
  exact ⟨m₀, _, hm₀, h₂, hlive, hwritten, hst.kept.holds _ _ hwritten⟩

end RustyOs.LinkedListMemory
