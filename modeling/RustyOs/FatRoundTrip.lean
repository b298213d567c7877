import RustyOs.FatFrame

/-!
Creating a file, listing the directory and reading the file back.

An entry decodes to what `create_file` put into it, and the directory lists it. With the
chain and the chunks the loop has left on the disk, the entry leads to the data.
-/

namespace RustyOs.FatRoundTrip

open RustyOs.Word32 RustyOs.BlockProg RustyOs.BlockProg.Prog RustyOs.Links RustyOs.Chunks
open RustyOs.Fat32 RustyOs.FatTable RustyOs.FatAlloc RustyOs.FatData RustyOs.FatCreate
open RustyOs.FatFrame

variable {bs : BootSector} {d d' : Disk} {c : UInt32}

/-! ### Directory entries -/

lemma toNat_fromLeBytes16 (b0 b1 : UInt8) :
    (fromLeBytes16 b0 b1).toNat = b0.toNat + 2 ^ 8 * b1.toNat := by
  have h0 := b0.toNat_lt
  have h1 := b1.toNat_lt
  exact UInt16.toNat_ofNat_of_lt' (show _ < 65536 by omega)

lemma fromLeBytes16_leByte {w : UInt32} (h : w.toNat < 2 ^ 16) :
    (fromLeBytes16 (leByte w 0) (leByte w 1)).toUInt32 = w := by
  apply UInt32.toNat_inj.mp
  rw [UInt16.toNat_toUInt32, toNat_fromLeBytes16]
  simp only [leByte, UInt8.toNat_ofNat']
  omega

lemma decode_firstCluster (name : List UInt8) (fc size : UInt32) :
    (decodeEntry (createDirEntry name fc size)).firstCluster = fc := by
  have hhi : ((fc >>> 16) &&& 0xFFFF).toNat = fc.toNat / 2 ^ 16 := by
    have := fc.toNat_lt
    rw [UInt32.toNat_and, UInt32.toNat_shiftRight]
    change (fc.toNat >>> 16) &&& (2 ^ 16 - 1) = _
    rw [Nat.and_two_pow_sub_one_eq_mod, Nat.shiftRight_eq_div_pow]
    omega
  have hlo : (fc &&& 0xFFFF).toNat = fc.toNat % 2 ^ 16 := by
    rw [UInt32.toNat_and]
    exact Nat.and_two_pow_sub_one_eq_mod fc.toNat 16
  have hlt := fc.toNat_lt
  change ((fromLeBytes16 (leByte ((fc >>> 16) &&& 0xFFFF) 0)
      (leByte ((fc >>> 16) &&& 0xFFFF) 1)).toUInt32 <<< 16) |||
    (fromLeBytes16 (leByte (fc &&& 0xFFFF) 0) (leByte (fc &&& 0xFFFF) 1)).toUInt32 = fc
  rw [fromLeBytes16_leByte (by omega), fromLeBytes16_leByte (by omega)]
  apply UInt32.toNat_inj.mp
  rw [UInt32.toNat_or, UInt32.toNat_shiftLeft, hhi, hlo]
  change (((fc.toNat / 2 ^ 16) <<< 16) % 2 ^ 32) ||| fc.toNat % 2 ^ 16 = fc.toNat
  rw [Nat.mod_eq_of_lt (by rw [Nat.shiftLeft_eq]; omega),
    ← Nat.shiftLeft_add_eq_or_of_lt (Nat.mod_lt _ (by decide)), Nat.shiftLeft_eq]
  omega

lemma decode_fileSize (name : List UInt8) (fc size : UInt32) :
    (decodeEntry (createDirEntry name fc size)).fileSize = size :=
  fromLeBytes_leByte size

/-- The name field of an entry, as `create_dir_entry` fills it. -/
def encodedName (name : List UInt8) : Fin 11 → UInt8 :=
  (decodeEntry (createDirEntry name 0 0)).name

lemma decode_name (name : List UInt8) (fc size : UInt32) :
    (decodeEntry (createDirEntry name fc size)).name = encodedName name := by
  funext i
  have hi := i.isLt
  simp only [decodeEntry, encodedName, createDirEntry]
  by_cases h : i.val < 8
  · simp only [h, if_true]
  · simp only [h, hi, if_true, if_false]

lemma encodedName_zero (name : List UInt8) :
    encodedName name 0 ∈ name.head? ∨ encodedName name 0 = 0x20 := by
  cases name with
  | nil => exact .inr rfl
  | cons b name =>
    change (((b :: name).splitOnP (· == 0x2E)).getD 0 []).getD 0 0x20 ∈ some b ∨
      (((b :: name).splitOnP (· == 0x2E)).getD 0 []).getD 0 0x20 = 0x20
    rw [List.splitOnP_cons_eq_if_modifyHead]
    split_ifs
    · exact .inr rfl
    · obtain ⟨l, ls, hl⟩ := List.exists_cons_of_ne_nil (List.splitOnP_ne_nil (· == 0x2E) name)
      rw [hl]
      exact .inl rfl

lemma slot_putSlot_self (s : Sector) (k : Fin 16) (entry : Fin 32 → UInt8) :
    slot (putSlot s k entry) k = entry := by
  funext j
  have hk : (k.val * 32 + j.val) / 32 = k.val := by omega
  have hj : (k.val * 32 + j.val) % 32 = j.val := by omega
  simp only [slot, putSlot, hk, if_true, hj]

lemma mem_sectorEntries {s : Sector} {k : Fin 16} (h : (decodeEntry (slot s k)).isValid) :
    decodeEntry (slot s k) ∈ sectorEntries s :=
  List.mem_filter.mpr ⟨List.mem_map.mpr ⟨k, List.mem_finRange k, rfl⟩, h⟩

/-- A name whose encoding does not start like a free slot. -/
def NameOk (name : List UInt8) : Prop := (decodeEntry (createDirEntry name 0 0)).isValid = true

lemma nameOk_of_head {name : List UInt8} (h : ∀ b ∈ name.head?, b ≠ 0x00 ∧ b ≠ 0xE5) :
    NameOk name := by
  refine decide_eq_true ?_
  rcases encodedName_zero name with hm | h20
  · exact h _ hm
  · rw [← encodedName, h20]
    decide

lemma decode_isValid {name : List UInt8} (h : NameOk name) (fc size : UInt32) :
    (decodeEntry (createDirEntry name fc size)).isValid = true := by
  rw [DirEntry.isValid, decode_name]
  exact h

/-! ### A file on the disk -/

/-- The directory lists an entry with this name and size, and the entry leads to the data. -/
def Stored (bs : BootSector) (d : Disk) (dir : UInt32) (name data : List UInt8) : Prop :=
  ∃ entries, exec (listDirectory bs dir) d = (.ok entries, d) ∧
    ∃ e ∈ entries, e.name = encodedName name ∧ e.fileSize.toNat = data.length ∧
      exec (readFile bs e) d = (.ok data, d)

lemma stored_of_slot (hv : VolumeFits bs) {dir lba : UInt32} {ds cs : List UInt32} {k : Fin 16}
    {name data : List UInt8} (hd : Path (fatNext (fatWord bs d)) dir ds)
    (hdlen : ds.length ≤ maxIterations) (hds : ∀ x ∈ ds, InRange bs x)
    (hl : lba ∈ chainSectors bs ds) (hslot : slot (d lba) k = entryFor name data (some c))
    (hname : NameOk name) (hsize : data.length < 2 ^ 32)
    (hc : Path (fatNext (fatWord bs d)) c cs) (hclen : cs.length ≤ maxIterations)
    (hcs : ∀ x ∈ cs, InRange bs x)
    (hdata : (bytesOf d (chainSectors bs cs)).take data.length = data) :
    Stored bs d dir name data := by
  refine ⟨_, exec_listDirectory hv hd hdlen hds, decodeEntry (slot (d lba) k), ?_, ?_⟩
  · refine List.mem_flatMap.mpr ⟨lba, hl, mem_sectorEntries ?_⟩
    rw [hslot]
    exact decode_isValid hname _ _
  · rw [hslot, entryFor, Option.getD_some]
    have hfc := decode_firstCluster name c (UInt32.ofNat data.length)
    have hfs : (decodeEntry (createDirEntry name c (UInt32.ofNat data.length))).fileSize.toNat =
        data.length := by
      rw [decode_fileSize, toNat_ofNat32 hsize]
    refine ⟨decode_name _ _ _, hfs, ?_⟩
    have hp : Path (fatNext (fatWord bs d)) (decodeEntry (createDirEntry name c
        (UInt32.ofNat data.length))).firstCluster cs := by rwa [hfc]
    rw [exec_readFile hv hp hclen hcs, hfs, hdata]

lemma bytesOf_chunks (hs : bs.sectorsPerCluster = 1) {cs : List UInt32} {data : List UInt8}
    (h : cs.map (fun x => d (sectorAt bs x 0)) = (chunksOf bs data).map (fill 0)) :
    (bytesOf d (chainSectors bs cs)).take data.length = data := by
  have hsec : chainSectors bs cs = cs.map fun x => sectorAt bs x 0 := by
    rw [chainSectors, hs]
    exact List.map_eq_flatMap.symm
  have hbytes : bytesOf d (chainSectors bs cs) =
      (chunksOf bs data).flatMap fun chunk => List.ofFn (fill 0 chunk : Sector) := by
    calc bytesOf d (chainSectors bs cs)
        = (cs.map fun x => d (sectorAt bs x 0)).flatMap List.ofFn := by
          rw [hsec, bytesOf, List.flatMap_map, List.flatMap_map]
      _ = _ := by rw [h, List.flatMap_map]
  rw [hbytes, chunksOf, hs]
  exact take_flatMap_fill 0 (le_refl _) (by decide)

lemma length_chunksOf (hs : bs.sectorsPerCluster = 1) {data : List UInt8}
    (h : data.length ≤ 10000 * 512) : (chunksOf bs data).length ≤ maxIterations := by
  rw [chunksOf, hs]
  exact length_chunksUpTo_mul h

lemma path_putEntry (hv : VolumeFits bs) {ds : List UInt32} (hds : ∀ x ∈ ds, InRange bs x)
    {lba : UInt32} (hl : lba ∈ chainSectors bs ds) {k : Fin 16} {entry : Fin 32 → UInt8}
    (h : Path (fatNext (fatWord bs d)) c ds) :
    Path (fatNext (fatWord bs (putEntry d lba k entry))) c ds := by
  exact h.congr fun x hx => fatNext_congr (fatWord_putEntry hv hds hl k entry (hds x hx).2)

lemma Wrote.stored (hv : VolumeFits bs) (hs : bs.sectorsPerCluster = 1) {dir lba : UInt32}
    {ds cs : List UInt32} (hd : Path (fatNext (fatWord bs d)) dir ds)
    (hdlen : ds.length ≤ maxIterations) (hds : ∀ x ∈ ds, InRange bs x) {name data : List UInt8}
    (hw : Wrote bs none (c :: cs) (chunksOf bs data) d d')
    (hcs : (c :: cs).length = (chunksOf bs data).length) (hname : NameOk name)
    (hsize : data.length ≤ 10000 * 512) (hl : lba ∈ chainSectors bs ds) (k : Fin 16) :
    Stored bs (putEntry d' lba k (entryFor name data (some c))) dir name data := by
  have hfree := hw.free hv (by simp)
  have hused := used_of_path hd hds
  have hd' := path_of_keeps hd (Wrote.keeps_path hv hw hd hds)
  -- the new clusters are not those of the directory, whose entries were not zero
  have hkeep : ∀ x ∈ c :: cs, Keeps bs d' (putEntry d' lba k (entryFor name data (some c))) x :=
    fun x hx => putEntry_keeps hv hds hl k _ (hfree x hx).1
      fun hxd => hused x hxd (hfree x hx).2.1
  refine stored_of_slot (k := k) hv (path_putEntry hv hds hl hd') hdlen hds hl ?_ hname ?_
    (path_of_keeps (hw.path hv) hkeep) ?_ (fun x hx => (hfree x hx).1) (bytesOf_chunks hs ?_)
  · rw [putEntry, Function.update_self, slot_putSlot_self]
  · omega
  · exact hcs.le.trans (length_chunksOf hs hsize)
  · have hdata := hw.data hv
    rw [hcs, List.take_length] at hdata
    rw [← hdata]
    exact List.map_congr_left fun x hx => (hkeep x hx).2 0 hv.cluster

/-- **A file that was created can be listed and read back.** -/
theorem create_list_read (hv : VolumeFits bs) (hs : bs.sectorsPerCluster = 1) {dir : UInt32}
    {ds : List UInt32} (hd : (exec (followClusterChain bs dir) d).1 = .ok ds)
    (hds : ∀ x ∈ ds, InRange bs x) {name data : List UInt8}
    (hname : ∀ b ∈ name.head?, b ≠ 0x00 ∧ b ≠ 0xE5) (hne : data ≠ [])
    (hsize : data.length ≤ 10000 * 512)
    (hok : exec (createFile bs dir name data) d = (.ok (), d')) :
    ∃ entries, (exec (listDirectory bs dir) d').1 = .ok entries ∧
      ∃ e ∈ entries, e.fileSize.toNat = data.length ∧ (exec (readFile bs e) d').1 = .ok data := by
  obtain ⟨hdp, hdlen⟩ := (exec_followClusterChain_ok bs).mp hd
  suffices h : Stored bs d' dir name data by
    obtain ⟨entries, hlist, e, hmem, -, hes, hread⟩ := h
    exact ⟨entries, congrArg Prod.fst hlist, e, hmem, hes, congrArg Prod.fst hread⟩
  obtain ⟨cs, d₁, lba, k, hw, -, hcs, hl, rfl⟩ := createFile_ok hv hd hds hok
  have hcne : cs ≠ [] := by
    rintro rfl
    exact hne (chunksOf_eq_nil.mp (List.length_eq_zero_iff.mp hcs.symm))
  obtain ⟨c, cs, rfl⟩ := List.exists_cons_of_ne_nil hcne
  exact Wrote.stored hv hs hdp hdlen hds hw hcs (nameOk_of_head hname) hsize hl k

theorem create_list_read_small : ∃ entries,
    (exec (listDirectory smallVolume 2)
        (exec (createFile smallVolume 2 [0x41] [7]) smallDisk).2).1 = .ok entries ∧
      ∃ e ∈ entries, e.fileSize.toNat = 1 ∧
        (exec (readFile smallVolume e)
          (exec (createFile smallVolume 2 [0x41] [7]) smallDisk).2).1 = .ok [7] := by
  have hok : (exec (createFile smallVolume 2 [0x41] [7]) smallDisk).1 = .ok () := by
    decide +kernel
  exact create_list_read (d := smallDisk) smallVolume_fits rfl smallDisk_dir smallDisk_dir_inRange
    (by simp) (by simp) (by simp) (exec_of_fst hok)

end RustyOs.FatRoundTrip
