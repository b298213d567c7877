import RustyOs.FatRoundTrip

/-!
Where the bytes of a file lie, and which of them `create_file` writes.

Byte `k` of a file is byte `k % 512` of a sector of cluster `k / B` of its chain, with `B` the
bytes of a cluster. `read_file` reads all sectors of a cluster; `create_file` cuts the data into
pieces of `B` bytes and writes the first 512 of each.
-/

namespace RustyOs.FatBytes

open RustyOs.Word32 RustyOs.BlockProg RustyOs.BlockProg.Prog RustyOs.Links RustyOs.Chunks
open RustyOs.Fat32 RustyOs.FatTable RustyOs.FatAlloc RustyOs.FatData RustyOs.FatCreate
open RustyOs.FatFrame RustyOs.FatRoundTrip

variable {bs : BootSector} {d d' : Disk} {c : UInt32} {cs : List UInt32} {k : ℕ}

/-- The bytes of a cluster. -/
def clusterBytes (bs : BootSector) : ℕ := 512 * bs.sectorsPerCluster.toNat

/-- Byte `k` of a chain: byte `k % 512` of sector `(k % B) / 512` of its cluster `k / B`. -/
def byteAt (bs : BootSector) (d : Disk) (cs : List UInt32) (k : ℕ) : Option UInt8 := do
  let c ← cs[k / clusterBytes bs]?
  let first ← bs.clusterToSector c
  let lba ← add32 first (UInt32.ofNat (k % clusterBytes bs / 512))
  return d lba (byteIndex k)

lemma clusterBytes_pos (hv : VolumeFits bs) : 0 < clusterBytes bs :=
  Nat.mul_pos (by decide) hv.cluster

lemma sector_lt (hv : VolumeFits bs) (k : ℕ) :
    k % clusterBytes bs / 512 < bs.sectorsPerCluster.toNat := by
  have hlt := Nat.mod_lt k (clusterBytes_pos hv)
  exact Nat.div_lt_of_lt_mul hlt

lemma byteAt_eq (hv : VolumeFits bs) (hcs : ∀ x ∈ cs, InRange bs x) (d : Disk) (k : ℕ) :
    byteAt bs d cs k = cs[k / clusterBytes bs]?.map fun c =>
      d (sectorAt bs c (k % clusterBytes bs / 512)) (byteIndex k) := by
  rw [byteAt]
  rcases hc : cs[k / clusterBytes bs]? with _ | c
  · rfl
  · have hin := hcs c (List.mem_of_getElem? hc)
    simp only [Option.bind_eq_bind, Option.bind_some, clusterToSector_eq hv hin,
      add_sectorAt hv hin (sector_lt hv k), Option.pure_def, Option.map_some]

/-! ### Reading -/

lemma length_bytesOf (d : Disk) (cs : List UInt32) :
    (bytesOf d (chainSectors bs cs)).length = clusterBytes bs * cs.length := by
  have hsectors : (chainSectors bs cs).length = bs.sectorsPerCluster.toNat * cs.length :=
    length_flatMap_parts fun c _ => by simp
  rw [bytesOf, length_flatMap_parts fun l _ => List.length_ofFn, hsectors, clusterBytes,
    Nat.mul_assoc]

lemma getElem?_bytesOf (hv : VolumeFits bs) (hcs : ∀ x ∈ cs, InRange bs x) (d : Disk) (k : ℕ) :
    (bytesOf d (chainSectors bs cs))[k]? = byteAt bs d cs k := by
  have hsector : k / 512 % bs.sectorsPerCluster.toNat = k % clusterBytes bs / 512 :=
    (Nat.mod_mul_right_div_self k 512 _).symm
  have hcluster : k / 512 / bs.sectorsPerCluster.toNat = k / clusterBytes bs :=
    Nat.div_div_eq_div_mul k 512 _
  rw [byteAt_eq hv hcs, bytesOf, getElem?_flatMap_parts (fun l _ => List.length_ofFn) (by decide),
    chainSectors, getElem?_flatMap_parts (n := bs.sectorsPerCluster.toNat) (fun c _ => by simp)
      hv.cluster, hsector, hcluster]
  rcases cs[k / clusterBytes bs]? with _ | c
  · rfl
  · rw [Option.bind_some, List.getElem?_map, List.getElem?_range (sector_lt hv k),
      Option.map_some, Option.bind_some, List.getElem?_ofFn]
    exact dif_pos (byteIndex k).isLt

/-- **What a file reads as.** The result has as many bytes as the size field says if the chain
has room for them, and the bytes of the whole chain if not; each byte comes from its place. -/
theorem readFile_exact (hv : VolumeFits bs) {e : DirEntry}
    (h : (exec (followClusterChain bs e.firstCluster) d).1 = .ok cs)
    (hcs : ∀ x ∈ cs, InRange bs x) : ∃ data, exec (readFile bs e) d = (.ok data, d) ∧
      data.length = min e.fileSize.toNat (clusterBytes bs * cs.length) ∧
      (data.length = e.fileSize.toNat ↔ e.fileSize.toNat ≤ clusterBytes bs * cs.length) ∧
      ∀ k < data.length, data[k]? = byteAt bs d cs k := by
  obtain ⟨hpath, hlen⟩ := (exec_followClusterChain_ok bs).mp h
  have hlength : ((bytesOf d (chainSectors bs cs)).take e.fileSize.toNat).length =
      min e.fileSize.toNat (clusterBytes bs * cs.length) := by
    rw [List.length_take, length_bytesOf]
  refine ⟨_, exec_readFile hv hpath hlen hcs, hlength, ?_, fun k hk => ?_⟩
  · rw [hlength]
    omega
  · rw [hlength] at hk
    rw [List.getElem?_take_of_lt (by omega), getElem?_bytesOf hv hcs]

theorem readFile_exact_small : ∃ data,
    exec (readFile smallVolume ⟨fun _ => 0x42, 0x20, 4, 100⟩) smallDisk = (.ok data, smallDisk) ∧
      data.length = 100 := by
  obtain ⟨data, hread, -, hsize, -⟩ := readFile_exact (e := ⟨fun _ => 0x42, 0x20, 4, 100⟩)
    smallVolume_fits smallDisk_file smallDisk_file_inRange
  exact ⟨data, hread, hsize.mpr (by decide)⟩

/-- A file of one cluster whose size field says more reads as 512 bytes. -/
theorem readFile_short : ∃ (bs : BootSector) (d : Disk) (e : DirEntry) (cs : List UInt32)
    (data : List UInt8), VolumeFits bs ∧
      (exec (followClusterChain bs e.firstCluster) d).1 = .ok cs ∧ (∀ x ∈ cs, InRange bs x) ∧
      exec (readFile bs e) d = (.ok data, d) ∧ data.length ≠ e.fileSize.toNat := by
  obtain ⟨hpath, hlen⟩ := (exec_followClusterChain_ok smallVolume).mp smallDisk_file
  refine ⟨smallVolume, smallDisk, ⟨fun _ => 0x42, 0x20, 4, 513⟩, [4], _, smallVolume_fits,
    smallDisk_file, smallDisk_file_inRange,
    exec_readFile smallVolume_fits hpath hlen smallDisk_file_inRange, ?_⟩
  rw [List.length_take, length_bytesOf]
  decide

/-! ### Writing -/

lemma byteAt_of_keeps (hv : VolumeFits bs) (hcs : ∀ x ∈ cs, InRange bs x)
    (hk : ∀ x ∈ cs, Keeps bs d d' x) : byteAt bs d' cs k = byteAt bs d cs k := by
  rw [byteAt_eq hv hcs, byteAt_eq hv hcs]
  rcases hc : cs[k / clusterBytes bs]? with _ | c
  · rfl
  · simp only [Option.map_some]
    rw [(hk c (List.mem_of_getElem? hc)).2 _ (sector_lt hv k)]

section wrote

variable {chunks : List (List UInt8)} {data : List UInt8}

lemma byteAt_rest (hv : VolumeFits bs) (hw : Wrote bs none cs chunks d d')
    (hk : 512 ≤ k % clusterBytes bs) : byteAt bs d' cs k = byteAt bs d cs k := by
  have hcs : ∀ x ∈ cs, InRange bs x := fun x hx => (hw.free hv (by simp) x hx).1
  rw [byteAt_eq hv hcs, byteAt_eq hv hcs]
  rcases hc : cs[k / clusterBytes bs]? with _ | c
  · rfl
  · have hin := hcs c (List.mem_of_getElem? hc)
    have hi := sector_lt hv k
    have hpos : 1 ≤ k % clusterBytes bs / 512 := (Nat.one_le_div_iff (by decide)).mpr hk
    simp only [Option.map_some]
    rw [hw.sector_other hv (by simp) (fun x hx he => ?_) (.inr (sectorAt_outside hv hin hi))]
    have := (sectorAt_inj hv hin (hcs x hx) hi hv.cluster he).2
    omega

lemma byteAt_first (hv : VolumeFits bs) (hw : Wrote bs none cs (chunksOf bs data) d d')
    (hlen : cs.length = (chunksOf bs data).length) (hk : k < data.length)
    (hfirst : k % clusterBytes bs < 512) : byteAt bs d' cs k = data[k]? := by
  have hcs : ∀ x ∈ cs, InRange bs x := fun x hx => (hw.free hv (by simp) x hx).1
  have hdata := hw.data hv
  rw [hlen, List.take_length] at hdata
  have hidx : k / clusterBytes bs * clusterBytes bs + k % clusterBytes bs = k :=
    Nat.div_add_mod' k _
  have hlt : k / clusterBytes bs * clusterBytes bs < data.length := by omega
  have hbyte : (byteIndex k).val = k % clusterBytes bs := by
    change k % 512 = k % clusterBytes bs
    rw [← Nat.mod_mul_right_mod k 512 bs.sectorsPerCluster.toNat]
    exact Nat.mod_eq_of_lt hfirst
  have hchunk : (chunksOf bs data)[k / clusterBytes bs]? =
      some ((data.drop (k / clusterBytes bs * clusterBytes bs)).take (clusterBytes bs)) :=
    getElem?_chunksUpTo (le_refl _) (clusterBytes_pos hv) hlt
  have hsector : cs[k / clusterBytes bs]?.map (fun x => d' (sectorAt bs x 0)) =
      some (fill 0 ((data.drop (k / clusterBytes bs * clusterBytes bs)).take
        (clusterBytes bs))) := by
    rw [← List.getElem?_map, hdata, List.getElem?_map, hchunk, Option.map_some]
  obtain ⟨c, hc, hcontent⟩ := Option.map_eq_some_iff.mp hsector
  have hpiece : ((data.drop (k / clusterBytes bs * clusterBytes bs)).take
      (clusterBytes bs))[k % clusterBytes bs]? = data[k]? := by
    rw [List.getElem?_take_of_lt (Nat.mod_lt k (clusterBytes_pos hv)), List.getElem?_drop, hidx]
  rw [byteAt_eq hv hcs, hc, Nat.div_eq_of_lt hfirst, Option.map_some, hcontent, fill,
    List.getD, hbyte, hpiece, List.getElem?_eq_getElem hk, Option.getD_some]

end wrote

lemma bytes_iff (hv : VolumeFits bs) {data : List UInt8}
    (hw : Wrote bs none cs (chunksOf bs data) d d')
    (hlen : cs.length = (chunksOf bs data).length) :
    (∀ k < data.length, byteAt bs d' cs k = data[k]?) ↔
      ∀ k < data.length, 512 ≤ k % clusterBytes bs → byteAt bs d cs k = data[k]? := by
  constructor
  · intro h k hk hrest
    rw [← byteAt_rest hv hw hrest, h k hk]
  · intro h k hk
    rcases Nat.lt_or_ge (k % clusterBytes bs) 512 with hfirst | hrest
    · exact byteAt_first hv hw hlen hk hfirst
    · rw [byteAt_rest hv hw hrest, h k hk hrest]

/-- **Which bytes of a file reach the disk.** The file gets the first free clusters of the
table, and its data lies there exactly if every byte that falls behind the first sector of a
cluster was there before the call. -/
theorem bytes_written_iff (hv : VolumeFits bs) {dir : UInt32} {ds : List UInt32}
    (hd : (exec (followClusterChain bs dir) d).1 = .ok ds) (hds : ∀ x ∈ ds, InRange bs x)
    {name data : List UInt8} (hok : exec (createFile bs dir name data) d = (.ok (), d')) :
    ∃ cs, cs = (freeClusters bs d).take ((data.length + clusterBytes bs - 1) / clusterBytes bs) ∧
      cs.length = (data.length + clusterBytes bs - 1) / clusterBytes bs ∧
      (∀ x ∈ cs.head?, Path (fatNext (fatWord bs d')) x cs) ∧
      (∀ x, InRange bs x → (x ∈ cs ↔ fatWord bs d x = 0 ∧ fatWord bs d' x ≠ 0)) ∧
      ((∀ k < data.length, byteAt bs d' cs k = data[k]?) ↔
        ∀ k < data.length, 512 ≤ k % clusterBytes bs → byteAt bs d cs k = data[k]?) := by
  obtain ⟨cs, d₁, lba, j, hw, hfirst, hlen, hl, rfl⟩ := createFile_ok hv hd hds hok
  have hcount : cs.length = (data.length + clusterBytes bs - 1) / clusterBytes bs :=
    hlen.trans (length_chunksUpTo (le_refl _) (clusterBytes_pos hv))
  have hfree := hw.free hv (by simp)
  have hused := used_of_path ((exec_followClusterChain_ok bs).mp hd).1 hds
  -- the clusters of the file are not those of the directory, whose entries were not zero
  have hkeep : ∀ x ∈ cs,
      Keeps bs d₁ (putEntry d₁ lba j (entryFor name data cs.head?)) x := fun x hx =>
    putEntry_keeps hv hds hl j _ (hfree x hx).1 fun hxd => hused x hxd (hfree x hx).2.1
  refine ⟨cs, hcount ▸ hfirst, hcount, fun x hx => ?_, fun x hx => ?_, ?_⟩
  · cases cs with
    | nil => cases hx
    | cons c cs =>
      obtain rfl := Option.some_inj.mp hx
      exact path_of_keeps (hw.path hv) hkeep
  · rw [fatWord_putEntry hv hds hl j _ hx.2]
    constructor
    · intro hmem
      exact ⟨(hfree x hmem).2.1, hw.taken hv x hmem⟩
    · rintro ⟨hzero, hset⟩
      by_contra hnot
      exact hset ((hw.fatWord_other hv hx.2 hnot (by simp)).trans hzero)
  · rw [← bytes_iff hv hw hlen]
    simp only [byteAt_of_keeps hv (fun x hx => (hfree x hx).1) hkeep]

/-- A volume with clusters of two sectors. -/
def pairVolume : BootSector := ⟨512, 2, 1, 1, 0, 1, 2⟩

/-- On this disk cluster 2 is an empty directory and cluster 3 is free. -/
def pairDisk : Disk := Function.update (oneFree pairVolume 3) 2 fun _ => 0

lemma pairVolume_fits : VolumeFits pairVolume := ⟨by decide, by decide, by decide⟩

lemma pairVolume_inRange : ∀ x ∈ [(2 : UInt32)], InRange pairVolume x := by
  simp only [List.forall_mem_singleton, InRange, entryCount]
  decide

/-- The same disk with a cluster 3 whose second sector is full of sevens. -/
def sevensDisk : Disk := Function.update pairDisk 5 fun _ => 7

/-- Of a file of 513 sevens the last is not written, but it is on the disk already. -/
theorem bytes_written_iff_sevens : ∃ d',
    exec (createFile pairVolume 2 [0x41] (List.replicate 513 7)) sevensDisk = (.ok (), d') ∧
      (freeClusters pairVolume sevensDisk).take 1 = [3] ∧
      ∀ k < 513, byteAt pairVolume d' [3] k = some 7 := by
  have hok : (exec (createFile pairVolume 2 [0x41] (List.replicate 513 7)) sevensDisk).1 =
      .ok () := by decide +kernel
  have hdir : (exec (followClusterChain pairVolume 2) sevensDisk).1 = .ok [2] := by
    decide +kernel
  have hfree : (freeClusters pairVolume sevensDisk).take 1 = [3] := by decide +kernel
  have hone : (513 + clusterBytes pairVolume - 1) / clusterBytes pairVolume = 1 := by decide
  obtain ⟨cs, hcs, -, -, -, hiff⟩ := bytes_written_iff pairVolume_fits hdir pairVolume_inRange
    (exec_of_fst hok)
  rw [List.length_replicate, hone, hfree] at hcs
  subst hcs
  refine ⟨_, exec_of_fst hok, hfree, fun k hk => ?_⟩
  have hdata : ∀ k < 513, (List.replicate 513 (7 : UInt8))[k]? = some 7 := fun k hk =>
    List.getElem?_replicate_of_lt hk
  rw [← hdata k hk]
  refine hiff.mpr (fun k hk hrest => ?_) k (by rwa [List.length_replicate])
  rw [List.length_replicate] at hk
  obtain rfl : k = 512 := by
    have := Nat.mod_le k (clusterBytes pairVolume)
    omega
  rw [hdata 512 hk]
  decide +kernel

/-- Of a file of 513 bytes on a volume with two sectors to a cluster the last is not written. -/
theorem bytes_lost : ∃ (bs : BootSector) (d d' : Disk) (dir : UInt32) (ds : List UInt32)
    (name data : List UInt8) (cs : List UInt32), VolumeFits bs ∧
      2 ≤ bs.sectorsPerCluster.toNat ∧ (exec (followClusterChain bs dir) d).1 = .ok ds ∧
      (∀ x ∈ ds, InRange bs x) ∧ exec (createFile bs dir name data) d = (.ok (), d') ∧
      cs = (freeClusters bs d).take ((data.length + clusterBytes bs - 1) / clusterBytes bs) ∧
      data[512]? = some 7 ∧ byteAt bs d' cs 512 ≠ some 7 := by
  have hok : (exec (createFile pairVolume 2 [0x41] (List.replicate 513 7)) pairDisk).1 =
      .ok () := by decide +kernel
  refine ⟨pairVolume, pairDisk, _, 2, [2], [0x41], List.replicate 513 7, _, pairVolume_fits, ?_, ?_,
    pairVolume_inRange, exec_of_fst hok, rfl, ?_, ?_⟩
  · decide
  · decide +kernel
  · exact List.getElem?_replicate_of_lt (by decide)
  · decide +kernel

end RustyOs.FatBytes
