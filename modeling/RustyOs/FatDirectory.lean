import RustyOs.FatRoundTrip
import RustyOs.Slots

/-!
A directory as a table of slots.

The sectors of the directory's chain hold 16 slots each. `write_dir_entry` fills the first free
one and `list_directory` decodes those in use, so a directory is a table in the sense of
`Slots`, with the contents of every slot of the disk as one map. Neither method, nor
`create_file` above them, compares names.
-/

namespace RustyOs.FatDirectory

open RustyOs.BlockProg RustyOs.BlockProg.Prog RustyOs.Links RustyOs.Fat32 RustyOs.FatTable
open RustyOs.FatAlloc RustyOs.FatData RustyOs.FatCreate RustyOs.FatFrame RustyOs.FatRoundTrip

variable {bs : BootSector} {d d' : Disk} {dir : UInt32} {ds : List UInt32}

/-- A slot of the disk: a sector and a number in it. -/
abbrev Place := UInt32 × Fin 16

/-- The bytes of every slot of the disk. -/
def contents (d : Disk) (p : Place) : Fin 32 → UInt8 := slot (d p.1) p.2

/-- The slots of a directory in the order of its chain. -/
def dirSlots (bs : BootSector) (ds : List UInt32) : List Place :=
  chainSectors bs ds ×ˢ List.finRange 16

def isLive (raw : Fin 32 → UInt8) : Bool := (decodeEntry raw).isValid

lemma slot_size_pos : 0 < 32 := by decide

def firstByte (raw : Fin 32 → UInt8) : UInt8 := raw ⟨0, slot_size_pos⟩

/-- A slot that may be taken. -/
def SlotFree (d : Disk) (p : Place) : Prop :=
  firstByte (contents d p) = 0x00 ∨ firstByte (contents d p) = 0xE5

lemma isLive_eq_true {raw : Fin 32 → UInt8} :
    isLive raw = true ↔ firstByte raw ≠ 0x00 ∧ firstByte raw ≠ 0xE5 := decide_eq_true_iff

lemma isLive_eq_false {p : Place} : isLive (contents d p) = false ↔ SlotFree d p := by
  rw [← Bool.not_eq_true, isLive_eq_true, SlotFree]
  tauto

/-! ### The methods on the table of slots -/

lemma contents_putEntry (d : Disk) (l : UInt32) (k : Fin 16) (entry : Fin 32 → UInt8) :
    contents (putEntry d l k entry) = Function.update (contents d) (l, k) entry := by
  funext ⟨l', k'⟩
  by_cases hl : l' = l
  · subst hl
    by_cases hk : k' = k
    · subst hk
      rw [Function.update_self, contents, putEntry, Function.update_self, slot_putSlot_self]
    · rw [Function.update_of_ne (by simp [hk]), contents, putEntry, Function.update_self]
      -- another slot of the same sector
      funext j
      have hj : (k'.val * 32 + j.val) / 32 ≠ k.val := by
        have := Fin.val_ne_of_ne hk
        omega
      simp only [slot, putSlot, hj, if_false, contents]
  · rw [Function.update_of_ne (by simp [hl]), contents, putEntry, Function.update_of_ne hl,
      contents]

lemma entriesOf_eq (d : Disk) (lbas : List UInt32) : entriesOf d lbas =
    Slots.listing isLive decodeEntry (contents d) (lbas ×ˢ List.finRange 16) := by
  induction lbas with
  | nil => rfl
  | cons l lbas ih =>
    rw [List.product_cons, Slots.listing_append, ← ih, Slots.listing, List.filter_map,
      List.map_map]
    change sectorEntries (d l) ++ entriesOf d lbas = _
    rw [sectorEntries, List.filter_map]
    rfl

lemma firstFree_eq (d : Disk) (lbas : List UInt32) : firstFree d lbas =
    Slots.firstFree isLive (contents d) (lbas ×ˢ List.finRange 16) := by
  have hslot : ∀ l : UInt32, (freeSlot (d l)).map (fun k => (l, k)) =
      ((List.finRange 16).map (Prod.mk l)).find? fun p => !isLive (contents d p) := by
    intro l
    rw [List.find?_map, freeSlot]
    congr 2
    funext k
    rw [Bool.eq_iff_iff, decide_eq_true_iff, Function.comp_apply, Bool.not_eq_true',
      isLive_eq_false]
    rfl
  change lbas.findSome? _ = (lbas.flatMap fun l => (List.finRange 16).map (Prod.mk l)).find? _
  rw [List.find?_flatMap]
  congr 1
  funext l
  exact hslot l

lemma nodup_chainSectors (hv : VolumeFits bs) (hds : ∀ x ∈ ds, InRange bs x) (hnd : ds.Nodup) :
    (chainSectors bs ds).Nodup := by
  have hmap : chainSectors bs ds =
      (ds ×ˢ List.range bs.sectorsPerCluster.toNat).map fun p => sectorAt bs p.1 p.2 := by
    change _ = (ds.flatMap fun c =>
      (List.range bs.sectorsPerCluster.toNat).map (Prod.mk c)).map _
    rw [chainSectors, List.map_flatMap]
    simp only [List.map_map, Function.comp_def]
  rw [hmap]
  refine List.Nodup.map_on ?_ (hnd.product List.nodup_range)
  rintro ⟨c, i⟩ hc ⟨c', i'⟩ hc' he
  obtain ⟨hc, hi⟩ := List.mem_product.mp hc
  obtain ⟨hc', hi'⟩ := List.mem_product.mp hc'
  obtain ⟨rfl, rfl⟩ := sectorAt_inj hv (hds c hc) (hds c' hc') (List.mem_range.mp hi)
    (List.mem_range.mp hi') he
  rfl

/-- A directory whose chain, of clusters in range, is `ds`. -/
structure DirAt (bs : BootSector) (dir : UInt32) (ds : List UInt32) (d : Disk) : Prop where
  path : Path (fatNext (fatWord bs d)) dir ds
  length : ds.length ≤ maxIterations
  inRange : ∀ x ∈ ds, InRange bs x

/-- The entries a directory lists. -/
def listed (bs : BootSector) (ds : List UInt32) (d : Disk) : List DirEntry :=
  Slots.listing isLive decodeEntry (contents d) (dirSlots bs ds)

lemma DirAt.of_follow (h : (exec (followClusterChain bs dir) d).1 = .ok ds)
    (hds : ∀ x ∈ ds, InRange bs x) : DirAt bs dir ds d := by
  obtain ⟨hpath, hlen⟩ := (exec_followClusterChain_ok bs).mp h
  exact ⟨hpath, hlen, hds⟩

lemma DirAt.nodup_slots (hv : VolumeFits bs) (h : DirAt bs dir ds d) : (dirSlots bs ds).Nodup :=
  (nodup_chainSectors hv h.inRange h.path.nodup).product (List.nodup_finRange 16)

lemma DirAt.exec_list (hv : VolumeFits bs) (h : DirAt bs dir ds d) :
    (exec (listDirectory bs dir) d).1 = .ok (listed bs ds d) := by
  rw [exec_listDirectory hv h.path h.length h.inRange, entriesOf_eq]
  rfl

lemma DirAt.exec_write (hv : VolumeFits bs) (h : DirAt bs dir ds d) (entry : Fin 32 → UInt8) :
    (∃ p, Slots.firstFree isLive (contents d) (dirSlots bs ds) = some p ∧
        exec (writeDirEntry bs dir entry) d = (.ok (), putEntry d p.1 p.2 entry) ∧
        DirAt bs dir ds (putEntry d p.1 p.2 entry)) ∨
      (exec (writeDirEntry bs dir entry) d = (.err .noFreeDirEntries, d) ∧
        ∀ p ∈ dirSlots bs ds, ¬ SlotFree d p) := by
  have hexec := exec_writeDirEntry hv h.path h.length h.inRange entry
  rcases hf : firstFree d (chainSectors bs ds) with _ | ⟨l, k⟩
  · rw [hf] at hexec
    refine .inr ⟨hexec, fun p hp hfree => ?_⟩
    rw [firstFree_eq, Slots.firstFree, List.find?_eq_none] at hf
    have := hf p hp
    rw [isLive_eq_false.mpr hfree] at this
    exact this rfl
  · rw [hf] at hexec
    refine .inl ⟨(l, k), firstFree_eq d _ ▸ hf, hexec, ?_, h.length, h.inRange⟩
    exact path_putEntry hv h.inRange (mem_of_firstFree hf).1 h.path

/-! ### Inserting an entry -/

lemma listed_putEntry (bs : BootSector) (ds : List UInt32) (d : Disk) (p : Place)
    (entry : Fin 32 → UInt8) : listed bs ds (putEntry d p.1 p.2 entry) =
      Slots.listing isLive decodeEntry (Function.update (contents d) p entry)
        (dirSlots bs ds) := by
  rw [listed, contents_putEntry]

lemma DirAt.listed_insert (hv : VolumeFits bs) (h : DirAt bs dir ds d) {p : Place}
    {entry : Fin 32 → UInt8}
    (hfree : Slots.firstFree isLive (contents d) (dirSlots bs ds) = some p)
    (hlive : isLive entry = true) : ∃ pre post, dirSlots bs ds = pre ++ p :: post ∧
      (∀ q ∈ pre, isLive (contents d q) = true) ∧ isLive (contents d p) = false ∧
      listed bs ds (putEntry d p.1 p.2 entry) =
        (listed bs ds d).insertIdx pre.length (decodeEntry entry) := by
  rw [listed_putEntry]
  exact Slots.listing_update_firstFree (h.nodup_slots hv) hfree hlive

/-- What one insertion does to the slots of the disk and to the listing. -/
structure Inserted (bs : BootSector) (dir : UInt32) (entry : Fin 32 → UInt8) (d d' : Disk)
    (pre : List Place) (p : Place) : Prop where
  used : ∀ q ∈ pre, ¬ SlotFree d q
  free : SlotFree d p
  put : contents d' p = entry
  changed : contents d' p ≠ contents d p
  others : ∀ q, q ≠ p → contents d' q = contents d q
  list : ∃ old, (exec (listDirectory bs dir) d).1 = .ok old ∧
    (exec (listDirectory bs dir) d').1 = .ok (old.insertIdx pre.length (decodeEntry entry))

lemma DirAt.inserted (hv : VolumeFits bs) (h : DirAt bs dir ds d) {p : Place}
    {entry : Fin 32 → UInt8}
    (hfree : Slots.firstFree isLive (contents d) (dirSlots bs ds) = some p)
    (hlive : isLive entry = true) (h' : DirAt bs dir ds (putEntry d p.1 p.2 entry)) :
    ∃ pre post, dirSlots bs ds = pre ++ p :: post ∧
      Inserted bs dir entry d (putEntry d p.1 p.2 entry) pre p := by
  obtain ⟨pre, post, hsplit, hpre, hp, hlist⟩ := h.listed_insert hv hfree hlive
  have hcont : contents (putEntry d p.1 p.2 entry) = Function.update (contents d) p entry :=
    contents_putEntry d p.1 p.2 entry
  have hput : contents (putEntry d p.1 p.2 entry) p = entry := by
    rw [hcont, Function.update_self]
  refine ⟨pre, post, hsplit, ⟨fun q hq hqf => ?_, isLive_eq_false.mp hp, hput, fun heq => ?_,
    fun q hq => ?_, listed bs ds d, h.exec_list hv, ?_⟩⟩
  · have hq := hpre q hq
    rw [isLive_eq_false.mpr hqf] at hq
    cases hq
  · rw [← heq, hput, hlive] at hp
    cases hp
  · rw [hcont, Function.update_of_ne hq]
  · rw [h'.exec_list hv, hlist]

/-- **An insertion loses and duplicates nothing.** The entry goes into the first free slot of
the directory, the only slot of the disk that changes, and comes into the listing at the number
of that slot. The only failures are that of the chain walk and a directory without a free slot;
both leave the disk as it was. -/
theorem writeDirEntry_exact (hv : VolumeFits bs)
    (hchain : ∀ ds, (exec (followClusterChain bs dir) d).1 = .ok ds → ∀ x ∈ ds, InRange bs x)
    {entry : Fin 32 → UInt8} (hlive : firstByte entry ≠ 0x00 ∧ firstByte entry ≠ 0xE5) :
    (∀ d', exec (writeDirEntry bs dir entry) d = (.ok (), d') → ∃ ds pre p post,
      (exec (followClusterChain bs dir) d).1 = .ok ds ∧ dirSlots bs ds = pre ++ p :: post ∧
      Inserted bs dir entry d d' pre p) ∧
    (∀ e d', exec (writeDirEntry bs dir entry) d = (.err e, d') → d' = d ∧
      ((exec (followClusterChain bs dir) d).1 = .err .chainTooLong ∨
        ∃ ds, (exec (followClusterChain bs dir) d).1 = .ok ds ∧
          ∀ p ∈ dirSlots bs ds, ¬ SlotFree d p)) ∧
    (exec (writeDirEntry bs dir entry) d).1 ≠ .panic := by
  rcases hw : walk (fatNext (fatWord bs d)) maxIterations dir with _ | ds
  · -- the walk fails, and the method with it
    have hfollow : exec (followClusterChain bs dir) d = (.err .chainTooLong, d) := by
      rw [exec_followClusterChain, hw]
    have hexec : exec (writeDirEntry bs dir entry) d = (.err .chainTooLong, d) := by
      rw [writeDirEntry, exec_bind_err hfollow]
    rw [hexec, hfollow]
    refine ⟨fun d' h => ?_, fun e d' h => ?_, by simp⟩
    · cases h
    · exact ⟨(Prod.mk.inj h).2.symm, .inl rfl⟩
  · have hfollow : (exec (followClusterChain bs dir) d).1 = .ok ds := by
      rw [exec_followClusterChain, hw]
    have hdir := DirAt.of_follow hfollow (hchain ds hfollow)
    rcases hdir.exec_write hv entry with ⟨p, hfree, hexec, hdir'⟩ | ⟨hexec, hnone⟩
    · rw [hexec]
      refine ⟨fun d' h => ?_, fun e d' h => ?_, by simp⟩
      · obtain rfl := (Prod.mk.inj h).2
        obtain ⟨pre, post, hsplit, hins⟩ :=
          hdir.inserted hv hfree (isLive_eq_true.mpr hlive) hdir'
        exact ⟨ds, pre, p, post, hfollow, hsplit, hins⟩
      · cases h
    · rw [hexec]
      refine ⟨fun d' h => ?_, fun e d' h => ?_, by simp⟩
      · cases h
      · exact ⟨(Prod.mk.inj h).2.symm, .inr ⟨ds, hfollow, hnone⟩⟩

theorem writeDirEntry_exact_small : ∃ d' pre p,
    exec (writeDirEntry smallVolume 2 (createDirEntry [0x41] 3 1)) smallDisk = (.ok (), d') ∧
      Inserted smallVolume 2 (createDirEntry [0x41] 3 1) smallDisk d' pre p := by
  have hok : (exec (writeDirEntry smallVolume 2 (createDirEntry [0x41] 3 1)) smallDisk).1 =
      .ok () := by decide +kernel
  have hchain : ∀ ds, (exec (followClusterChain smallVolume 2) smallDisk).1 = .ok ds →
      ∀ x ∈ ds, InRange smallVolume x := by
    intro ds h
    rw [smallDisk_dir] at h
    obtain rfl : [2] = ds := by simpa using h
    exact smallDisk_dir_inRange
  have hlive : firstByte (createDirEntry [0x41] 3 1) ≠ 0x00 ∧
      firstByte (createDirEntry [0x41] 3 1) ≠ 0xE5 := by decide
  obtain ⟨-, pre, p, -, -, -, hins⟩ :=
    (writeDirEntry_exact smallVolume_fits hchain hlive).1 _ (exec_of_fst hok)
  exact ⟨_, pre, p, exec_of_fst hok, hins⟩

/-! ### Names -/

/-- The name and the data of a call of `create_file`. -/
abbrev Request := List UInt8 × List UInt8

/-- The disk after a call of `create_file` on the directory. -/
def createIn (bs : BootSector) (dir : UInt32) (d : Disk) (r : Request) : Disk :=
  (exec (createFile bs dir r.1 r.2) d).2

/-- No two entries of the listing have the same name field. -/
def UniqueNames (bs : BootSector) (dir : UInt32) (d : Disk) : Prop :=
  ∃ entries, (exec (listDirectory bs dir) d).1 = .ok entries ∧
    (entries.map DirEntry.name).Nodup

/-- If the call succeeds with an entry in use, its name field is not yet listed. -/
def Fresh (bs : BootSector) (dir : UInt32) (d : Disk) (r : Request) : Prop :=
  (exec (createFile bs dir r.1 r.2) d).1 = .ok () → NameOk r.1 →
    ∀ entries, (exec (listDirectory bs dir) d).1 = .ok entries →
      encodedName r.1 ∉ entries.map DirEntry.name

/-- Each call of the sequence is fresh in its turn. -/
def AllFresh (bs : BootSector) (dir : UInt32) : Disk → List Request → Prop
  | _, [] => True
  | d, r :: rs => Fresh bs dir d r ∧ AllFresh bs dir (createIn bs dir d r) rs

lemma DirAt.of_keeps (h : DirAt bs dir ds d) (hk : ∀ x ∈ ds, Keeps bs d d' x) :
    DirAt bs dir ds d' := ⟨path_of_keeps h.path hk, h.length, h.inRange⟩

lemma DirAt.listed_of_keeps (hv : VolumeFits bs) (h : DirAt bs dir ds d)
    (hk : ∀ x ∈ ds, Keeps bs d d' x) : listed bs ds d' = listed bs ds d := by
  have heq := listDirectory_of_keeps hv h.path h.length h.inRange hk
  rw [h.exec_list hv, (h.of_keeps hk).exec_list hv] at heq
  simpa using heq

lemma listed_unchanged {p : Place} {entry : Fin 32 → UInt8} (hp : isLive (contents d p) = false)
    (hdead : isLive entry = false) : listed bs ds (putEntry d p.1 p.2 entry) =
      listed bs ds d := by
  rw [listed_putEntry]
  exact Slots.listing_update_free hp hdead

/-- What a call does to the listing: a successful one with a name that is seen adds an entry
with its name field, any other leaves it as it is. -/
lemma DirAt.create (hv : VolumeFits bs) (h : DirAt bs dir ds d) (r : Request) :
    DirAt bs dir ds (createIn bs dir d r) ∧
      ((¬ ((exec (createFile bs dir r.1 r.2) d).1 = .ok () ∧ NameOk r.1) ∧
          listed bs ds (createIn bs dir d r) = listed bs ds d) ∨
        ((exec (createFile bs dir r.1 r.2) d).1 = .ok () ∧ NameOk r.1 ∧
          ∃ i ≤ (listed bs ds d).length, ∃ e : DirEntry, e.name = encodedName r.1 ∧
            listed bs ds (createIn bs dir d r) = (listed bs ds d).insertIdx i e)) := by
  rcases exec_createFile hv dir r.1 r.2 d with ⟨-, he⟩ | ⟨-, cs, d₁, hw, -, ⟨he, -, -⟩ | ⟨he, -⟩⟩
  · rw [createIn, he]
    exact ⟨h, .inl ⟨by simp, rfl⟩⟩
  · have hk := Wrote.keeps_path hv hw h.path h.inRange
    rw [createIn, he]
    exact ⟨h.of_keeps hk, .inl ⟨by simp, h.listed_of_keeps hv hk⟩⟩
  · have hk := Wrote.keeps_path hv hw h.path h.inRange
    have h₁ := h.of_keeps hk
    have hsame := h.listed_of_keeps hv hk
    set entry := entryFor r.1 r.2 cs.head? with hentry
    have hlive : isLive entry = true ↔ NameOk r.1 := by
      rw [isLive, hentry, entryFor, DirEntry.isValid, decode_name]
      rfl
    rw [createIn, he]
    rcases h₁.exec_write hv entry with ⟨p, hfree, hexec, h₂⟩ | ⟨hexec, -⟩
    · rw [hexec]
      refine ⟨h₂, ?_⟩
      by_cases hname : NameOk r.1
      · obtain ⟨pre, post, hsplit, hpre, -, hlist⟩ :=
          h₁.listed_insert hv hfree (hlive.mpr hname)
        refine .inr ⟨rfl, hname, pre.length, ?_, decodeEntry entry, decode_name _ _ _, ?_⟩
        · -- the slots in front are in use, so the listing is at least as long
          rw [← hsame, listed, hsplit, Slots.listing_append, List.length_append,
            Slots.length_listing_live hpre]
          omega
        · rw [← hsame]
          exact hlist
      · refine .inl ⟨fun hboth => hname hboth.2, ?_⟩
        have hp : isLive (contents d₁ p) = false := by
          have := List.find?_some hfree
          simpa using this
        rw [← hsame]
        exact listed_unchanged hp (by rw [← Bool.not_eq_true, hlive]; exact hname)
    · rw [hexec]
      exact ⟨h₁, .inl ⟨by simp, hsame⟩⟩

lemma DirAt.unique_iff (hv : VolumeFits bs) (h : DirAt bs dir ds d) :
    UniqueNames bs dir d ↔ ((listed bs ds d).map DirEntry.name).Nodup := by
  rw [UniqueNames, h.exec_list hv]
  simp

lemma DirAt.unique_create_iff (hv : VolumeFits bs) (h : DirAt bs dir ds d) (r : Request) :
    UniqueNames bs dir (createIn bs dir d r) ↔ UniqueNames bs dir d ∧ Fresh bs dir d r := by
  obtain ⟨h', hcase⟩ := h.create hv r
  have hfresh : Fresh bs dir d r ↔ ((exec (createFile bs dir r.1 r.2) d).1 = .ok () →
      NameOk r.1 → encodedName r.1 ∉ (listed bs ds d).map DirEntry.name) := by
    rw [Fresh, h.exec_list hv]
    simp
  rw [h'.unique_iff hv, h.unique_iff hv, hfresh]
  rcases hcase with ⟨hnot, heq⟩ | ⟨hok, hname, i, hi, e, he, heq⟩
  · rw [heq]
    exact ⟨fun hu => ⟨hu, fun hok hname => absurd ⟨hok, hname⟩ hnot⟩, fun hu => hu.1⟩
  · rw [heq, Slots.nodup_insertIdx_iff hi, he]
    constructor
    · rintro ⟨hnew, hu⟩
      exact ⟨hu, fun _ _ => hnew⟩
    · rintro ⟨hu, hnew⟩
      exact ⟨hnew hok hname, hu⟩

lemma DirAt.unique_run_iff (hv : VolumeFits bs) (h : DirAt bs dir ds d) (rs : List Request) :
    UniqueNames bs dir (rs.foldl (createIn bs dir) d) ↔
      UniqueNames bs dir d ∧ AllFresh bs dir d rs := by
  induction rs generalizing d with
  | nil => simp [AllFresh]
  | cons r rs ih =>
    rw [List.foldl_cons, ih (h.create hv r).1, h.unique_create_iff hv, AllFresh, and_assoc]

/-- **When the names of a directory stay different.** After any sequence of calls the names of
a directory that were different are so exactly if no call that succeeded was given a name whose
field was listed already. -/
theorem names_unique_iff (hv : VolumeFits bs)
    (hd : (exec (followClusterChain bs dir) d).1 = .ok ds) (hds : ∀ x ∈ ds, InRange bs x)
    (hu : UniqueNames bs dir d) (rs : List Request) :
    UniqueNames bs dir (rs.foldl (createIn bs dir) d) ↔ AllFresh bs dir d rs := by
  rw [(DirAt.of_follow hd hds).unique_run_iff hv, and_iff_right hu]

lemma smallDisk_dirAt : DirAt smallVolume 2 [2] smallDisk :=
  DirAt.of_follow smallDisk_dir smallDisk_dir_inRange

lemma listed_smallDisk : listed smallVolume [2] smallDisk = [] :=
  List.length_eq_zero_iff.mp (by decide +kernel)

lemma smallDisk_unique : UniqueNames smallVolume 2 smallDisk := by
  rw [smallDisk_dirAt.unique_iff smallVolume_fits, listed_smallDisk]
  exact List.nodup_nil

/-- Two files, `A` and `B`. -/
theorem names_unique_iff_two :
    (exec (createFile smallVolume 2 [0x41] [7]) smallDisk).1 = .ok () ∧
      (exec (createFile smallVolume 2 [0x42] [])
        (createIn smallVolume 2 smallDisk ([0x41], [7]))).1 = .ok () ∧
      UniqueNames smallVolume 2
        ([([0x41], [7]), ([0x42], [])].foldl (createIn smallVolume 2) smallDisk) := by
  have hok : (exec (createFile smallVolume 2 [0x41] [7]) smallDisk).1 = .ok () := by
    decide +kernel
  refine ⟨hok, by decide +kernel, (names_unique_iff smallVolume_fits smallDisk_dir
    smallDisk_dir_inRange smallDisk_unique _).mpr ⟨fun _ _ entries hlist => ?_,
      fun _ _ entries hlist => ?_, trivial⟩⟩
  · rw [smallDisk_dirAt.exec_list smallVolume_fits, listed_smallDisk] at hlist
    obtain rfl : [] = entries := by simpa using hlist
    exact List.not_mem_nil
  · obtain ⟨h₁, ⟨hnot, -⟩ | ⟨-, -, i, hi, e, he, hone⟩⟩ :=
      smallDisk_dirAt.create smallVolume_fits ([0x41], [7])
    · exact absurd ⟨hok, nameOk_of_head (by simp)⟩ hnot
    · rw [h₁.exec_list smallVolume_fits, hone] at hlist
      obtain rfl := Res.ok.inj hlist
      rw [listed_smallDisk] at hi ⊢
      obtain rfl : i = 0 := Nat.le_zero.mp hi
      rw [List.insertIdx_zero, List.map_singleton, he, List.mem_singleton]
      decide

/-- Two empty files with the name `A` can be created one after the other. -/
theorem names_twice : ∃ (bs : BootSector) (d : Disk) (dir : UInt32) (ds : List UInt32)
    (r : Request), VolumeFits bs ∧ (exec (followClusterChain bs dir) d).1 = .ok ds ∧
      (∀ x ∈ ds, InRange bs x) ∧ UniqueNames bs dir d ∧
      (exec (createFile bs dir r.1 r.2) d).1 = .ok () ∧
      (exec (createFile bs dir r.1 r.2) (createIn bs dir d r)).1 = .ok () ∧
      ¬ UniqueNames bs dir (createIn bs dir (createIn bs dir d r) r) := by
  have hok : (exec (createFile smallVolume 2 [0x41] []) smallDisk).1 = .ok () := by
    decide +kernel
  have hok' : (exec (createFile smallVolume 2 [0x41] [])
      (createIn smallVolume 2 smallDisk ([0x41], []))).1 = .ok () := by decide +kernel
  have hname : NameOk [0x41] := nameOk_of_head (by simp)
  refine ⟨smallVolume, smallDisk, 2, [2], ([0x41], []), smallVolume_fits, smallDisk_dir,
    smallDisk_dir_inRange, smallDisk_unique, hok, hok', fun hu => ?_⟩
  obtain ⟨h₁, ⟨hnot, -⟩ | ⟨-, -, i, hi, e, he, hlist⟩⟩ :=
    smallDisk_dirAt.create smallVolume_fits ([0x41], [])
  · exact hnot ⟨hok, hname⟩
  · -- the first file is listed, so the second call is not fresh
    have hfresh := ((h₁.unique_create_iff smallVolume_fits ([0x41], [])).mp hu).2
    refine hfresh hok' hname _ (h₁.exec_list smallVolume_fits) ?_
    rw [hlist]
    exact List.mem_map.mpr ⟨e, (List.mem_insertIdx hi).mpr (.inl rfl), he⟩

end RustyOs.FatDirectory
