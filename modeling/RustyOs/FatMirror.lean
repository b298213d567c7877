import RustyOs.FatCreate

/-!
The second copy of the table.

Every change of an entry goes to the same place of both copies, and the sectors of data and of
directories lie behind them. So two copies that are equal stay equal through any calls, whatever
the calls return.
-/

namespace RustyOs.FatMirror

open RustyOs.Word32 RustyOs.BlockProg RustyOs.BlockProg.Prog RustyOs.Links RustyOs.Machine
open RustyOs.Fat32 RustyOs.FatTable RustyOs.FatAlloc RustyOs.FatData RustyOs.FatCreate

variable {bs : BootSector} {d d' : Disk} {c v lba : UInt32} {i : ℕ}

/-- Sector `i` of the first and of the second copy. -/
def primarySector (bs : BootSector) (i : ℕ) : UInt32 :=
  UInt32.ofNat (bs.reservedSectors.toNat + i)
def backupSector (bs : BootSector) (i : ℕ) : UInt32 :=
  UInt32.ofNat (bs.reservedSectors.toNat + i + bs.sectorsPerFat32.toNat)

/-- The two copies are equal, sector by sector. -/
def Mirrored (bs : BootSector) (d : Disk) : Prop :=
  ∀ i < bs.sectorsPerFat32.toNat, d (primarySector bs i) = d (backupSector bs i)

lemma toNat_primarySector (hf : TableFits bs) (hi : i < bs.sectorsPerFat32.toNat) :
    (primarySector bs i).toNat = bs.reservedSectors.toNat + i := by
  have hres := bs.reservedSectors.toNat_lt
  unfold TableFits at hf
  exact toNat_ofNat32 (by omega)

lemma toNat_backupSector (hf : TableFits bs) (hi : i < bs.sectorsPerFat32.toNat) :
    (backupSector bs i).toNat = bs.reservedSectors.toNat + i + bs.sectorsPerFat32.toNat := by
  have hres := bs.reservedSectors.toNat_lt
  unfold TableFits at hf
  exact toNat_ofNat32 (by omega)

/-! ### Setting an entry -/

lemma Mirrored.setEntry (h : Mirrored bs d) (hf : TableFits bs) (hn : bs.numFats = 2)
    (hc : c.toNat < entryCount bs) : Mirrored bs (setEntry bs d c v) := by
  unfold entryCount at hc
  have hsec : c.toNat / 128 < bs.sectorsPerFat32.toNat := by omega
  have hp : (fatLba bs c).toNat = bs.reservedSectors.toNat + c.toNat / 128 := toNat_fatLba bs c
  have hb := toNat_backupLba hf c
  have htwo : 1 < bs.numFats := by
    rw [hn]
    decide
  intro i hi
  have hpi := toNat_primarySector hf hi
  have hbi := toNat_backupSector hf hi
  simp only [FatTable.setEntry, if_pos htwo]
  have hne : primarySector bs i ≠ backupLba bs c := by
    intro he
    have := congrArg UInt32.toNat he
    omega
  have hne' : backupSector bs i ≠ fatLba bs c := by
    intro he
    have := congrArg UInt32.toNat he
    omega
  by_cases hic : i = c.toNat / 128
  · subst hic
    have hsame : primarySector bs (c.toNat / 128) = fatLba bs c := rfl
    have hsame' : backupSector bs (c.toNat / 128) = backupLba bs c := rfl
    rw [Function.update_of_ne hne, hsame, hsame', Function.update_self, Function.update_self]
  · have hnp : primarySector bs i ≠ fatLba bs c := by
      intro he
      have := congrArg UInt32.toNat he
      omega
    have hnb : backupSector bs i ≠ backupLba bs c := by
      intro he
      have := congrArg UInt32.toNat he
      omega
    rw [Function.update_of_ne hne, Function.update_of_ne hnp, Function.update_of_ne hnb,
      Function.update_of_ne hne', h i hi]

lemma Mirrored.allocDisk (h : Mirrored bs d) (hf : TableFits bs) (hn : bs.numFats = 2)
    {prev next : Option UInt32} (hc : c.toNat < entryCount bs)
    (hp : ∀ p ∈ prev, p.toNat < entryCount bs) : Mirrored bs (allocDisk bs d prev next c) := by
  unfold FatAlloc.allocDisk
  cases prev with
  | none => exact h.setEntry hf hn hc
  | some p => exact (h.setEntry hf hn (hp p rfl)).setEntry hf hn hc

/-! ### Sectors behind the tables -/

lemma Mirrored.update (h : Mirrored bs d) (hf : TableFits bs) (hn : bs.numFats = 2)
    (hlba : dataStart bs ≤ lba.toNat) (s : Sector) : Mirrored bs (Function.update d lba s) := by
  have htwo : bs.numFats.toNat = 2 := by
    rw [hn]
    rfl
  unfold dataStart at hlba
  rw [htwo] at hlba
  intro i hi
  have hp : primarySector bs i ≠ lba := by
    rintro rfl
    rw [toNat_primarySector hf hi] at hlba
    omega
  have hb : backupSector bs i ≠ lba := by
    rintro rfl
    rw [toNat_backupSector hf hi] at hlba
    omega
  rw [Function.update_of_ne hp, Function.update_of_ne hb, h i hi]

lemma dataStart_le_clusterToSector {s : UInt32} (h : bs.clusterToSector c = some s) :
    dataStart bs ≤ s.toNat := by
  obtain ⟨start, hstart, h⟩ := Option.bind_eq_some_iff.mp h
  obtain ⟨index, -, h⟩ := Option.bind_eq_some_iff.mp h
  obtain ⟨offset, -, h⟩ := Option.bind_eq_some_iff.mp h
  obtain ⟨fats, hfats, hstart⟩ := Option.bind_eq_some_iff.mp hstart
  rw [mul32_eq_some, UInt8.toNat_toUInt32] at hfats
  rw [add32_eq_some, UInt16.toNat_toUInt32] at hstart
  rw [add32_eq_some] at h
  unfold dataStart
  omega

/-- The disk is the same but for a sector behind the tables. -/
def Stored (bs : BootSector) (d d' : Disk) : Prop :=
  d' = d ∨ ∃ lba s, dataStart bs ≤ lba.toNat ∧ d' = Function.update d lba s

lemma Mirrored.stored (h : Mirrored bs d) (hf : TableFits bs) (hn : bs.numFats = 2)
    (hs : Stored bs d d') : Mirrored bs d' := by
  rcases hs with rfl | ⟨lba, s, hlba, rfl⟩
  · exact h
  · exact h.update hf hn hlba s

lemma tryOffsets_stored (entry : Fin 32 → UInt8) {s : UInt32} (hs : dataStart bs ≤ s.toNat)
    (is : List ℕ) (d : Disk) : Stored bs d (exec (tryOffsets entry s is) d).2 := by
  induction is with
  | nil => exact .inl rfl
  | cons i is ih =>
    rw [tryOffsets]
    rcases hadd : add32 s (UInt32.ofNat i) with _ | lba
    · exact .inl rfl
    · simp only [ofOption_some, ret_bind, readSector, read_bind, exec_read]
      rcases freeSlot (d lba) with _ | k
      · exact ih
      · rw [add32_eq_some] at hadd
        exact .inr ⟨lba, _, by omega, rfl⟩

lemma tryClusters_stored (entry : Fin 32 → UInt8) (cs : List UInt32) (d : Disk) :
    Stored bs d (exec (tryClusters bs entry cs) d).2 := by
  induction cs with
  | nil => exact .inl rfl
  | cons c cs ih =>
    rw [tryClusters]
    rcases hc : bs.clusterToSector c with _ | s
    · exact .inl rfl
    · rw [ofOption_some, ret_bind]
      have hsto := tryOffsets_stored entry (dataStart_le_clusterToSector hc)
        (List.range bs.sectorsPerCluster.toNat) d
      have hout := tryOffsets_outcome entry s (List.range bs.sectorsPerCluster.toNat) d
      rcases hr : exec (tryOffsets entry s (List.range bs.sectorsPerCluster.toNat)) d with ⟨r, d₁⟩
      rw [hr] at hsto hout
      cases r with
      | ok b =>
        rw [exec_bind_ok hr]
        cases b with
        | true => exact hsto
        | false =>
          obtain rfl : d₁ = d := hout.resolve_left (by simp)
          exact ih
      | err e =>
        rw [exec_bind_err hr]
        exact hsto
      | panic =>
        rw [exec_bind_panic hr]
        exact hsto

lemma writeDirEntry_stored (dir : UInt32) (entry : Fin 32 → UInt8) (d : Disk) :
    Stored bs d (exec (writeDirEntry bs dir entry) d).2 := by
  rw [writeDirEntry, exec_bind, exec_followClusterChain]
  rcases walk (fatNext (fatWord bs d)) maxIterations dir with _ | cs
  · exact .inl rfl
  · exact tryClusters_stored entry cs d

/-! ### The calls -/

lemma Mirrored.wrote (h : Mirrored bs d) (hv : VolumeFits bs) (hn : bs.numFats = 2)
    {cur : Option UInt32} {cs : List UInt32} {chunks : List (List UInt8)}
    (hw : Wrote bs cur cs chunks d d') (hcur : ∀ p ∈ cur, p.toNat < entryCount bs) :
    Mirrored bs d' := by
  induction hw with
  | stop => exact h
  | @take cur c cs chunk chunks d d' hc h0 t ih =>
    have hstart : dataStart bs ≤ (sectorAt bs c 0).toNat := by
      rw [toNat_sectorAt hv hc hv.cluster]
      omega
    have halloc : Mirrored bs (FatAlloc.allocDisk bs d cur none c) :=
      h.allocDisk hv.tableFits hn hc.2 hcur
    exact ih (halloc.update hv.tableFits hn hstart _) fun p hp => Option.some_inj.mp hp ▸ hc.2

inductive Op
  | setFatEntry (cluster value : UInt32)
  | allocateCluster (previousCluster nextCluster : Option UInt32)
  | writeDirEntry (directoryCluster : UInt32) (entry : Fin 32 → UInt8)
  | createFile (directoryCluster : UInt32) (name data : List UInt8)

/-- The disk after a call, whatever it returned. -/
def Op.disk (bs : BootSector) (d : Disk) : Op → Disk
  | .setFatEntry cluster value => (exec (Fat32.setFatEntry bs cluster value) d).2
  | .allocateCluster prev next => (exec (Fat32.allocateCluster bs prev next) d).2
  | .writeDirEntry dir entry => (exec (Fat32.writeDirEntry bs dir entry) d).2
  | .createFile dir name data => (exec (Fat32.createFile bs dir name data) d).2

/-- The clusters whose entries are to be set have entries. -/
def Op.Ok (bs : BootSector) : Op → Prop
  | .setFatEntry cluster _ => cluster.toNat < entryCount bs
  | .allocateCluster prev _ => ∀ p ∈ prev, p.toNat < entryCount bs
  | _ => True

lemma Mirrored.op (h : Mirrored bs d) (hv : VolumeFits bs) (hn : bs.numFats = 2) {op : Op}
    (hok : op.Ok bs) : Mirrored bs (op.disk bs d) := by
  cases op with
  | setFatEntry c v =>
    simp only [Op.disk, exec_setFatEntry hv.tableFits]
    exact h.setEntry hv.tableFits hn hok
  | allocateCluster prev next =>
    rcases exec_allocateCluster hv.tableFits d prev next with ⟨c, he, hc, -⟩ | ⟨he, -⟩
    · rw [Op.disk, he]
      exact h.allocDisk hv.tableFits hn hc.2 hok
    · rw [Op.disk, he]
      exact h
  | writeDirEntry dir entry => exact h.stored hv.tableFits hn (writeDirEntry_stored dir entry d)
  | createFile dir name data =>
    rcases exec_createFile hv dir name data d with ⟨-, he⟩ | ⟨-, cs, d₁, hw, -, ⟨he, -⟩ | ⟨he, -⟩⟩
    · rw [Op.disk, he]
      exact h
    · rw [Op.disk, he]
      exact h.wrote hv hn hw (by simp)
    · rw [Op.disk, he]
      exact (h.wrote hv hn hw (by simp)).stored hv.tableFits hn (writeDirEntry_stored dir _ d₁)

/-- **The second copy mirrors the first.** On a volume with two copies that are equal, they are
equal after any number of calls that set entries, take clusters, write directory entries and
create files, whatever the calls return and whatever the directories look like. -/
theorem backup_mirrors_primary (hv : VolumeFits bs) (hn : bs.numFats = 2) {d₀ : Disk}
    (h₀ : Mirrored bs d₀)
    (h : Reach (fun d op => some (Op.disk bs d op)) (fun _ op => op.Ok bs) d₀ d) :
    Mirrored bs d := by
  refine h.inv h₀ fun d op d' hd hok hs => ?_
  obtain rfl := Option.some.inj hs
  exact hd.op hv hn hok

/-- A volume with two copies of one sector. -/
def twoCopies : BootSector := ⟨512, 1, 1, 2, 0, 1, 2⟩

theorem backup_mirrors_primary_small :
    Mirrored twoCopies (oneFree twoCopies 3) ∧
      Mirrored twoCopies
        (Op.disk twoCopies (oneFree twoCopies 3) (.createFile 2 [0x41] [7])) := by
  have hv : VolumeFits twoCopies := by refine ⟨?_, ?_, ?_⟩ <;> decide
  have hconst : Mirrored twoCopies (fun _ => endMarks) := fun _ _ => rfl
  have h₀ : Mirrored twoCopies (oneFree twoCopies 3) :=
    hconst.setEntry hv.tableFits rfl (by decide)
  refine ⟨h₀, backup_mirrors_primary hv rfl h₀ (.step .start ?_ rfl)⟩
  trivial

end RustyOs.FatMirror
