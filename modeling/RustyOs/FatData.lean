import RustyOs.FatTable

/-!
The data region: where the sectors of a cluster lie, and what the loops over them do.

On a volume whose sectors all have numbers the disk can address, the sectors of the clusters
in range are apart from the tables and from each other. The nested loops of `read_file`,
`list_directory` and `write_dir_entry` then go over one list of sectors.
-/

namespace RustyOs.FatData

open RustyOs.Word32 RustyOs.BlockProg RustyOs.BlockProg.Prog RustyOs.Links RustyOs.Fat32
open RustyOs.FatTable

/-- The first sector of the data region. -/
def dataStart (bs : BootSector) : ℕ :=
  bs.reservedSectors.toNat + bs.numFats.toNat * bs.sectorsPerFat32.toNat

/-- A volume with a data region whose sectors can be addressed with 28 bits. -/
structure VolumeFits (bs : BootSector) : Prop where
  cluster : 1 ≤ bs.sectorsPerCluster.toNat
  table : 1 ≤ bs.numFats.toNat
  size : dataStart bs + 128 * bs.sectorsPerFat32.toNat * bs.sectorsPerCluster.toNat ≤ 2 ^ 28

variable {bs : BootSector} {d d' : Disk} {c c' : UInt32} {i i' : ℕ}

lemma VolumeFits.tableFits (hv : VolumeFits bs) : TableFits bs := by
  have h1 := hv.cluster
  have h2 := hv.size
  have h3 := Nat.le_mul_of_pos_right (128 * bs.sectorsPerFat32.toNat) h1
  unfold TableFits
  omega

lemma tables_le (bs : BootSector) :
    bs.reservedSectors.toNat + tableSectors bs ≤ dataStart bs := by
  unfold tableSectors dataStart
  exact Nat.add_le_add_left (Nat.mul_le_mul_right _ (Nat.min_le_left _ _)) _

lemma VolumeFits.lt_endOfChain (hv : VolumeFits bs) (hc : InRange bs c) : c < endOfChain := by
  have h1 := Nat.le_mul_of_pos_right (128 * bs.sectorsPerFat32.toNat) hv.cluster
  have h2 := Nat.le_mul_of_pos_left bs.sectorsPerFat32.toNat hv.table
  have h3 := hv.size
  have h4 := hc.2
  unfold dataStart at h3
  unfold entryCount at h4
  rw [UInt32.lt_iff_toNat_lt]
  change c.toNat < 268435448
  omega

/-- Sector `i` of a cluster. -/
def sectorAt (bs : BootSector) (c : UInt32) (i : ℕ) : UInt32 :=
  UInt32.ofNat (dataStart bs + (c.toNat - 2) * bs.sectorsPerCluster.toNat + i)

lemma offset_lt_region (hc : InRange bs c) (hi : i < bs.sectorsPerCluster.toNat) :
    (c.toNat - 2) * bs.sectorsPerCluster.toNat + i <
      (entryCount bs - 2) * bs.sectorsPerCluster.toNat := by
  have h1 := hc.1
  have h2 := hc.2
  calc (c.toNat - 2) * bs.sectorsPerCluster.toNat + i
      < (c.toNat - 2) * bs.sectorsPerCluster.toNat + bs.sectorsPerCluster.toNat :=
        Nat.add_lt_add_left hi _
    _ = (c.toNat - 2 + 1) * bs.sectorsPerCluster.toNat := (Nat.succ_mul _ _).symm
    _ ≤ (entryCount bs - 2) * bs.sectorsPerCluster.toNat :=
        Nat.mul_le_mul_right _ (by omega)

lemma offset_lt (hc : InRange bs c) (hi : i < bs.sectorsPerCluster.toNat) :
    (c.toNat - 2) * bs.sectorsPerCluster.toNat + i <
      128 * bs.sectorsPerFat32.toNat * bs.sectorsPerCluster.toNat :=
  (offset_lt_region hc hi).trans_le (Nat.mul_le_mul_right _ (Nat.sub_le _ _))

lemma toNat_sectorAt (hv : VolumeFits bs) (hc : InRange bs c)
    (hi : i < bs.sectorsPerCluster.toNat) : (sectorAt bs c i).toNat =
      dataStart bs + (c.toNat - 2) * bs.sectorsPerCluster.toNat + i := by
  have h1 := offset_lt hc hi
  have h2 := hv.size
  exact toNat_ofNat32 (by omega)

lemma sectorAt_inj (hv : VolumeFits bs) (hc : InRange bs c) (hc' : InRange bs c')
    (hi : i < bs.sectorsPerCluster.toNat) (hi' : i' < bs.sectorsPerCluster.toNat)
    (h : sectorAt bs c i = sectorAt bs c' i') : c = c' ∧ i = i' := by
  have hn := congrArg UInt32.toNat h
  rw [toNat_sectorAt hv hc hi, toNat_sectorAt hv hc' hi'] at hn
  have hpos := hv.cluster
  -- quotient and remainder by the cluster size
  have hq : ∀ {a j : ℕ}, j < bs.sectorsPerCluster.toNat →
      (a * bs.sectorsPerCluster.toNat + j) / bs.sectorsPerCluster.toNat = a := by
    intro a j hj
    rw [Nat.mul_comm, Nat.mul_add_div (by omega), Nat.div_eq_of_lt hj, Nat.add_zero]
  have hsum : (c.toNat - 2) * bs.sectorsPerCluster.toNat + i =
      (c'.toNat - 2) * bs.sectorsPerCluster.toNat + i' := by omega
  have hcc : c.toNat - 2 = c'.toNat - 2 := by
    have := congrArg (· / bs.sectorsPerCluster.toNat) hsum
    simpa only [hq hi, hq hi'] using this
  have h1 := hc.1
  have h2 := hc'.1
  refine ⟨UInt32.toNat_inj.mp (by omega), ?_⟩
  rw [hcc] at hsum
  omega

lemma sectorAt_outside (hv : VolumeFits bs) (hc : InRange bs c)
    (hi : i < bs.sectorsPerCluster.toNat) :
    bs.reservedSectors.toNat + tableSectors bs ≤ (sectorAt bs c i).toNat := by
  have := tables_le bs
  rw [toNat_sectorAt hv hc hi]
  omega

lemma fatLba_ne_sectorAt (hv : VolumeFits bs) (hc : c.toNat < entryCount bs)
    (hc' : InRange bs c') (hi : i < bs.sectorsPerCluster.toNat) :
    fatLba bs c ≠ sectorAt bs c' i := by
  intro h
  have h1 := sectorAt_outside hv hc' hi
  have h2 : bs.sectorsPerFat32.toNat ≤ tableSectors bs :=
    Nat.le_mul_of_pos_left _ (by have := hv.table; omega)
  rw [← h, toNat_fatLba] at h1
  unfold entryCount at hc
  omega

lemma backupLba_ne_sectorAt (hv : VolumeFits bs) (hn : 1 < bs.numFats)
    (hc : c.toNat < entryCount bs) (hc' : InRange bs c') (hi : i < bs.sectorsPerCluster.toNat) :
    backupLba bs c ≠ sectorAt bs c' i := by
  intro h
  have h1 := sectorAt_outside hv hc' hi
  have htwo : min bs.numFats.toNat 2 = 2 := by
    have : 1 < bs.numFats.toNat := hn
    omega
  rw [← h, toNat_backupLba hv.tableFits, tableSectors, htwo] at h1
  unfold entryCount at hc
  omega

lemma fatWord_update_sectorAt (hv : VolumeFits bs) (hc : c.toNat < entryCount bs)
    (hc' : InRange bs c') (hi : i < bs.sectorsPerCluster.toNat) (s : Sector) :
    fatWord bs (Function.update d (sectorAt bs c' i) s) c = fatWord bs d c :=
  fatWord_congr (Function.update_of_ne (fatLba_ne_sectorAt hv hc hc' hi) _ _)

lemma dataStartSector_eq_some {x : UInt32} :
    bs.dataStartSector = some x ↔ x.toNat = dataStart bs := by
  have hx := x.toNat_lt
  constructor
  · intro h
    obtain ⟨fats, hfats, h⟩ := Option.bind_eq_some_iff.mp h
    rw [mul32_eq_some, UInt8.toNat_toUInt32] at hfats
    rw [add32_eq_some, UInt16.toNat_toUInt32] at h
    rw [dataStart, hfats, h]
  · intro h
    unfold dataStart at h
    have hlt : bs.numFats.toNat * bs.sectorsPerFat32.toNat < 2 ^ 32 := by omega
    refine Option.bind_eq_some_iff.mpr
      ⟨UInt32.ofNat (bs.numFats.toNat * bs.sectorsPerFat32.toNat), ?_, ?_⟩
    · rw [mul32_eq_some, toNat_ofNat32 hlt, UInt8.toNat_toUInt32]
    · rw [add32_eq_some, toNat_ofNat32 hlt, UInt16.toNat_toUInt32, h]

lemma clusterToSector_iff {x : UInt32} : bs.clusterToSector c = some x ↔
    2 ≤ c.toNat ∧ x.toNat = dataStart bs + (c.toNat - 2) * bs.sectorsPerCluster.toNat := by
  constructor
  · intro h
    obtain ⟨start, hstart, h⟩ := Option.bind_eq_some_iff.mp h
    obtain ⟨index, hindex, h⟩ := Option.bind_eq_some_iff.mp h
    obtain ⟨offset, hoffset, h⟩ := Option.bind_eq_some_iff.mp h
    rw [dataStartSector_eq_some] at hstart
    rw [sub32_eq_some] at hindex
    rw [mul32_eq_some, UInt8.toNat_toUInt32] at hoffset
    rw [add32_eq_some] at h
    change c.toNat = 2 + index.toNat at hindex
    have hi : c.toNat - 2 = index.toNat := by omega
    rw [hi, hoffset, ← hstart, h]
    omega
  · rintro ⟨h2, hx⟩
    have hlt := x.toNat_lt
    have hc := c.toNat_lt
    have hstart : bs.dataStartSector = some (UInt32.ofNat (dataStart bs)) :=
      dataStartSector_eq_some.mpr (toNat_ofNat32 (by omega))
    have hindex : sub32 c 2 = some (UInt32.ofNat (c.toNat - 2)) := by
      rw [sub32_eq_some, toNat_ofNat32 (by omega)]
      change c.toNat = 2 + _
      omega
    have hoffset : mul32 (UInt32.ofNat (c.toNat - 2)) bs.sectorsPerCluster.toUInt32 =
        some (UInt32.ofNat ((c.toNat - 2) * bs.sectorsPerCluster.toNat)) := by
      rw [mul32_eq_some, toNat_ofNat32 (by omega), toNat_ofNat32 (by omega),
        UInt8.toNat_toUInt32]
    have hsum : add32 (UInt32.ofNat (dataStart bs))
        (UInt32.ofNat ((c.toNat - 2) * bs.sectorsPerCluster.toNat)) = some x := by
      rw [add32_eq_some, toNat_ofNat32 (by omega), toNat_ofNat32 (by omega), hx]
    simp only [BootSector.clusterToSector, hstart, hindex, hoffset, hsum, Option.bind_eq_bind,
      Option.bind_some]

lemma clusterToSector_eq (hv : VolumeFits bs) (hc : InRange bs c) :
    bs.clusterToSector c = some (sectorAt bs c 0) :=
  clusterToSector_iff.mpr ⟨hc.1, toNat_sectorAt hv hc hv.cluster⟩

lemma add_sectorAt (hv : VolumeFits bs) (hc : InRange bs c)
    (hi : i < bs.sectorsPerCluster.toNat) :
    add32 (sectorAt bs c 0) (UInt32.ofNat i) = some (sectorAt bs c i) := by
  have h1 := offset_lt hc hi
  have h2 := hv.size
  rw [add32_eq_some, toNat_sectorAt hv hc hv.cluster, toNat_sectorAt hv hc hi,
    toNat_ofNat32 (by omega), Nat.add_zero]

/-! ### The sectors of a chain -/

/-- The sectors of the clusters of a list, in the order the loops take them. -/
def chainSectors (bs : BootSector) (cs : List UInt32) : List UInt32 :=
  cs.flatMap fun c => (List.range bs.sectorsPerCluster.toNat).map (sectorAt bs c)

lemma chainSectors_cons (c : UInt32) (cs : List UInt32) : chainSectors bs (c :: cs) =
    (List.range bs.sectorsPerCluster.toNat).map (sectorAt bs c) ++ chainSectors bs cs := rfl

lemma mem_chainSectors {cs : List UInt32} {lba : UInt32} : lba ∈ chainSectors bs cs ↔
    ∃ c ∈ cs, ∃ i < bs.sectorsPerCluster.toNat, sectorAt bs c i = lba := by
  simp [chainSectors]

section loops

variable {β : Type} {s : Await} {f : β → Sector → β}

lemma exec_forOffsets (hv : VolumeFits bs) (hc : InRange bs c) {is : List ℕ}
    (his : ∀ i ∈ is, i < bs.sectorsPerCluster.toNat) (acc : β) :
    exec (forOffsets s f (sectorAt bs c 0) is acc) d =
      (.ok ((is.map (sectorAt bs c)).foldl (fun a l => f a (d l)) acc), d) := by
  induction is generalizing acc with
  | nil => rfl
  | cons i is ih =>
    have hstep : exec (forOffsets s f (sectorAt bs c 0) (i :: is) acc) d =
        exec (forOffsets s f (sectorAt bs c 0) is (f acc (d (sectorAt bs c i)))) d := by
      rw [forOffsets, add_sectorAt hv hc (his i (by simp))]
      rfl
    rw [hstep, ih fun j hj => his j (by simp [hj])]
    rfl

lemma exec_forClusters (hv : VolumeFits bs) {cs : List UInt32} (hcs : ∀ c ∈ cs, InRange bs c)
    (acc : β) : exec (forClusters bs s f cs acc) d =
      (.ok ((chainSectors bs cs).foldl (fun a l => f a (d l)) acc), d) := by
  induction cs generalizing acc with
  | nil => rfl
  | cons c cs ih =>
    have hc := hcs c (by simp)
    have hoff := exec_forOffsets (s := s) (f := f) (d := d) hv hc
      (fun i hi => List.mem_range.mp hi) acc
    rw [forClusters, clusterToSector_eq hv hc, ofOption_some, ret_bind, exec_bind_ok hoff,
      ih fun x hx => hcs x (by simp [hx]), chainSectors_cons, List.foldl_append]

end loops

/-! ### Reading -/

/-- The bytes of a list of sectors. -/
def bytesOf (d : Disk) (lbas : List UInt32) : List UInt8 := lbas.flatMap fun l => List.ofFn (d l)

/-- The valid entries of a list of sectors. -/
def entriesOf (d : Disk) (lbas : List UInt32) : List DirEntry :=
  lbas.flatMap fun l => sectorEntries (d l)

lemma foldl_append_flatMap {γ : Type} (g : UInt32 → List γ) (lbas : List UInt32) (acc : List γ) :
    lbas.foldl (fun a l => a ++ g l) acc = acc ++ lbas.flatMap g := by
  induction lbas generalizing acc with
  | nil => simp
  | cons l lbas ih => rw [List.foldl_cons, ih, List.flatMap_cons, List.append_assoc]

lemma exec_of_fst {α : Type} {p : FatM α} {r : Res FatError α} (h : (exec p d).1 = r) :
    exec p d = (r, (exec p d).2) := Prod.ext h rfl

lemma exec_followClusterChain_path {l : List UInt32}
    (h : Path (fatNext (fatWord bs d)) c l) (hlen : l.length ≤ maxIterations) :
    exec (followClusterChain bs c) d = (.ok l, d) := by
  rw [exec_followClusterChain, walk_eq_some.mpr ⟨h, hlen⟩]

lemma exec_readFile (hv : VolumeFits bs) {e : DirEntry} {cs : List UInt32}
    (h : Path (fatNext (fatWord bs d)) e.firstCluster cs) (hlen : cs.length ≤ maxIterations)
    (hcs : ∀ c ∈ cs, InRange bs c) : exec (readFile bs e) d =
      (.ok ((bytesOf d (chainSectors bs cs)).take e.fileSize.toNat), d) := by
  rw [readFile, exec_bind_ok (exec_followClusterChain_path h hlen),
    exec_bind_ok (exec_forClusters hv hcs []), foldl_append_flatMap]
  rfl

lemma exec_listDirectory (hv : VolumeFits bs) {cs : List UInt32}
    (h : Path (fatNext (fatWord bs d)) c cs) (hlen : cs.length ≤ maxIterations)
    (hcs : ∀ c ∈ cs, InRange bs c) : exec (listDirectory bs c) d =
      (.ok (entriesOf d (chainSectors bs cs)), d) := by
  rw [listDirectory, exec_bind_ok (exec_followClusterChain_path h hlen), exec_forClusters hv hcs,
    foldl_append_flatMap]
  rfl

/-! ### Writing a directory entry -/

/-- The first free slot of a list of sectors. -/
def firstFree (d : Disk) (lbas : List UInt32) : Option (UInt32 × Fin 16) :=
  lbas.findSome? fun l => (freeSlot (d l)).map fun k => (l, k)

/-- The disk after the entry has been copied into slot `k` of a sector. -/
def putEntry (d : Disk) (lba : UInt32) (k : Fin 16) (entry : Fin 32 → UInt8) : Disk :=
  Function.update d lba (putSlot (d lba) k entry)

lemma firstFree_cons (l : UInt32) (lbas : List UInt32) : firstFree d (l :: lbas) =
    match freeSlot (d l) with
      | some k => some (l, k)
      | none => firstFree d lbas := by
  rw [firstFree, List.findSome?_cons]
  cases freeSlot (d l) <;> rfl

lemma exec_tryOffsets (hv : VolumeFits bs) (hc : InRange bs c) {is : List ℕ}
    (his : ∀ i ∈ is, i < bs.sectorsPerCluster.toNat) (entry : Fin 32 → UInt8) :
    exec (tryOffsets entry (sectorAt bs c 0) is) d =
      match firstFree d (is.map (sectorAt bs c)) with
      | some (l, k) => (.ok true, putEntry d l k entry)
      | none => (.ok false, d) := by
  induction is with
  | nil => rfl
  | cons i is ih =>
    rw [tryOffsets, add_sectorAt hv hc (his i (by simp)), List.map_cons, firstFree_cons]
    simp only [ofOption_some, ret_bind, readSector, read_bind, exec_read]
    rcases hk : freeSlot (d (sectorAt bs c i)) with _ | k
    · exact ih fun j hj => his j (by simp [hj])
    · rfl

lemma firstFree_append (d : Disk) (l₁ l₂ : List UInt32) : firstFree d (l₁ ++ l₂) =
    match firstFree d l₁ with
      | some r => some r
      | none => firstFree d l₂ := by
  rw [firstFree, List.findSome?_append, ← firstFree, ← firstFree]
  cases firstFree d l₁ <;> rfl

lemma exec_tryClusters (hv : VolumeFits bs) {cs : List UInt32} (hcs : ∀ c ∈ cs, InRange bs c)
    (entry : Fin 32 → UInt8) : exec (tryClusters bs entry cs) d =
      match firstFree d (chainSectors bs cs) with
      | some (l, k) => (.ok (), putEntry d l k entry)
      | none => (.err .noFreeDirEntries, d) := by
  induction cs with
  | nil => rfl
  | cons c cs ih =>
    have hc := hcs c (by simp)
    have hoff := exec_tryOffsets (d := d) hv hc (fun i hi => List.mem_range.mp hi) entry
    rw [tryClusters, clusterToSector_eq hv hc, ofOption_some, ret_bind, chainSectors_cons,
      firstFree_append]
    rcases hr : firstFree d ((List.range bs.sectorsPerCluster.toNat).map (sectorAt bs c)) with
      _ | ⟨l, k⟩
    · rw [hr] at hoff
      rw [exec_bind_ok hoff]
      exact ih fun x hx => hcs x (by simp [hx])
    · rw [hr] at hoff
      rw [exec_bind_ok hoff]
      rfl

/-- **Writing a directory entry**: it goes to the first free slot of the directory's chain. -/
lemma exec_writeDirEntry (hv : VolumeFits bs) {cs : List UInt32}
    (h : Path (fatNext (fatWord bs d)) c cs) (hlen : cs.length ≤ maxIterations)
    (hcs : ∀ c ∈ cs, InRange bs c) (entry : Fin 32 → UInt8) :
    exec (writeDirEntry bs c entry) d = match firstFree d (chainSectors bs cs) with
      | some (l, k) => (.ok (), putEntry d l k entry)
      | none => (.err .noFreeDirEntries, d) := by
  rw [writeDirEntry, exec_bind_ok (exec_followClusterChain_path h hlen), exec_tryClusters hv hcs]

end RustyOs.FatData
