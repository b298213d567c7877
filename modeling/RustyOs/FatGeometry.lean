import RustyOs.FatBounds
import RustyOs.FatRoundTrip

/-!
The geometry of a volume: what the boot sector says about it, and what is made of that.

`BootSector::read` looks at the signature only, and `total_sectors_32` is printed but not used
by any method. So the numbers of the boot sector may describe a volume whose sectors cannot be
computed, and the search for a free cluster ends with the table and not with the volume. Here
is what has to hold of the numbers, and of the table, for neither to happen.
-/

namespace RustyOs.FatGeometry

open RustyOs.Word32 RustyOs.BlockProg RustyOs.BlockProg.Prog RustyOs.Fat32
open RustyOs.FatTable RustyOs.FatAlloc RustyOs.FatData RustyOs.FatBounds RustyOs.FatRoundTrip

variable {bs : BootSector} {d : Disk} {c x : UInt32}

/-! ### The first sector of a cluster -/

lemma cluster_below_iff {bound : ℕ} (hbound : bound ≤ 2 ^ 32)
    (hpos : 1 ≤ bs.sectorsPerCluster.toNat) (h2 : 2 ≤ c.toNat) :
    (∃ s, bs.clusterToSector c = some s ∧ s.toNat + bs.sectorsPerCluster.toNat ≤ bound) ↔
      dataStart bs + (c.toNat - 1) * bs.sectorsPerCluster.toNat ≤ bound := by
  have hlast : (c.toNat - 1) * bs.sectorsPerCluster.toNat =
      (c.toNat - 2) * bs.sectorsPerCluster.toNat + bs.sectorsPerCluster.toNat := by
    rw [← Nat.succ_mul]
    congr 1
    omega
  rw [hlast]
  constructor
  · rintro ⟨s, hs, hle⟩
    have := (clusterToSector_iff.mp hs).2
    omega
  · intro hle
    have hfirst : (UInt32.ofNat
        (dataStart bs + (c.toNat - 2) * bs.sectorsPerCluster.toNat)).toNat =
        dataStart bs + (c.toNat - 2) * bs.sectorsPerCluster.toNat := toNat_ofNat32 (by omega)
    exact ⟨_, clusterToSector_iff.mpr ⟨h2, hfirst⟩, by omega⟩

/-! ### The boot sector -/

/-- The little-endian number in `len` bytes of a sector. -/
def number (sector : Sector) (off len : ℕ) : ℕ :=
  Nat.ofDigits 256 ((List.range len).map fun i => (sector (byteIndex (off + i))).toNat)

/-- What the rest of the driver takes for granted about a boot sector. -/
structure Usable (bs : BootSector) : Prop where
  cluster : 0 < bs.sectorsPerCluster
  bytes : bs.bytesPerSector = 512
  start : ∃ s, bs.dataStartSector = some s
  data : ∀ c : UInt32, 2 ≤ c.toNat → c.toNat < 128 * bs.sectorsPerFat32.toNat →
    ∃ s, bs.clusterToSector c = some s ∧ s.toNat + bs.sectorsPerCluster.toNat - 1 < 2 ^ 32

/-- The number of cluster numbers below the end of the table. -/
def clusterEnd (bs : BootSector) : ℕ := min (128 * bs.sectorsPerFat32.toNat) (2 ^ 32)

/-- The volume in numbers: its last cluster ends where the numbers of sectors do, or before. -/
structure GoodGeometry (sector : Sector) : Prop where
  cluster : number sector 0x0D 1 ≠ 0
  bytes : number sector 0x0B 2 = 512
  data : number sector 0x0E 2 + number sector 0x10 1 * number sector 0x24 4 +
    (min (128 * number sector 0x24 4) (2 ^ 32) - 2) * number sector 0x0D 1 ≤ 2 ^ 32

lemma number_one (sector : Sector) (off : ℕ) :
    number sector off 1 = (sector (byteIndex off)).toNat := by
  simp [number, List.range_succ]

lemma number_two (sector : Sector) (off : ℕ) : number sector off 2 =
    (fromLeBytes16 (sector (byteIndex off)) (sector (byteIndex (off + 1)))).toNat := by
  rw [toNat_fromLeBytes16]
  simp [number, List.range_succ, Nat.ofDigits]

lemma number_four (sector : Sector) (off : ℕ) : number sector off 4 =
    (fromLeBytes (sector (byteIndex off)) (sector (byteIndex (off + 1)))
      (sector (byteIndex (off + 2))) (sector (byteIndex (off + 3)))).toNat := by
  rw [toNat_fromLeBytes]
  simp only [number, List.range_succ, List.range_zero, List.nil_append, List.cons_append,
    List.map_cons, List.map_nil, Nat.ofDigits_cons, Nat.ofDigits_nil, Nat.add_zero]
  push_cast
  ring

lemma parse_isSome_iff {sector : Sector} :
    (∃ bs, BootSector.parse sector = some bs) ↔ number sector 510 2 = 0xAA55 := by
  have h0 := (sector 510).toNat_lt
  have h1 := (sector 511).toNat_lt
  have hnum : number sector 510 2 = (sector 510).toNat + 256 * (sector 511).toNat := by
    rw [number_two, toNat_fromLeBytes16]
    rfl
  have h55 : sector 510 = 0x55 ↔ (sector 510).toNat = 0x55 := by
    rw [← UInt8.toNat_inj]
    rfl
  have hAA : sector 511 = 0xAA ↔ (sector 511).toNat = 0xAA := by
    rw [← UInt8.toNat_inj]
    rfl
  rw [hnum, BootSector.parse]
  split_ifs with h
  · refine iff_of_false (by simp) fun heq => ?_
    rw [ne_eq, ne_eq, h55, hAA] at h
    omega
  · push Not at h
    rw [h55, hAA] at h
    exact iff_of_true ⟨_, rfl⟩ (by omega)

lemma fields_of_parse {sector : Sector} (h : BootSector.parse sector = some bs) :
    bs.bytesPerSector.toNat = number sector 0x0B 2 ∧
      bs.sectorsPerCluster.toNat = number sector 0x0D 1 ∧
      bs.reservedSectors.toNat = number sector 0x0E 2 ∧
      bs.numFats.toNat = number sector 0x10 1 ∧
      bs.sectorsPerFat32.toNat = number sector 0x24 4 := by
  unfold BootSector.parse at h
  split_ifs at h
  obtain rfl := Option.some.inj h
  exact ⟨(number_two sector 0x0B).symm, (number_one sector 0x0D).symm,
    (number_two sector 0x0E).symm, (number_one sector 0x10).symm,
    (number_four sector 0x24).symm⟩

lemma read_ok_iff : (exec BootSector.read d).1 = .ok bs ↔ BootSector.parse (d 0) = some bs := by
  rw [BootSector.read, readSector, read_bind, exec_read, ret_bind]
  rcases BootSector.parse (d 0) with _ | bs'
  · simp
  · simp

lemma data_iff (hpos : 1 ≤ bs.sectorsPerCluster.toNat) :
    ((∃ s, bs.dataStartSector = some s) ∧
      ∀ c : UInt32, 2 ≤ c.toNat → c.toNat < 128 * bs.sectorsPerFat32.toNat →
        ∃ s, bs.clusterToSector c = some s ∧
          s.toNat + bs.sectorsPerCluster.toNat - 1 < 2 ^ 32) ↔
      dataStart bs + (clusterEnd bs - 2) * bs.sectorsPerCluster.toNat ≤ 2 ^ 32 := by
  have hsub : ∀ n : ℕ, n + bs.sectorsPerCluster.toNat - 1 < 2 ^ 32 ↔
      n + bs.sectorsPerCluster.toNat ≤ 2 ^ 32 := by
    intro n
    omega
  simp only [hsub]
  constructor
  · rintro ⟨⟨s, hs⟩, hdata⟩
    rcases Nat.lt_or_ge 2 (clusterEnd bs) with hlt | hle
    · -- the last cluster of the table decides
      have hlast : (UInt32.ofNat (clusterEnd bs - 1)).toNat = clusterEnd bs - 1 :=
        toNat_ofNat32 (by unfold clusterEnd; omega)
      have h := (cluster_below_iff le_rfl hpos (by omega)).mp
        (hdata (UInt32.ofNat (clusterEnd bs - 1)) (by omega)
          (by rw [hlast]; unfold clusterEnd at hlt ⊢; omega))
      rwa [hlast] at h
    · rw [Nat.sub_eq_zero_of_le hle, Nat.zero_mul, Nat.add_zero,
        ← dataStartSector_eq_some.mp hs]
      exact s.toNat_lt.le
  · intro hle
    have hstart : dataStart bs < 2 ^ 32 := by
      rcases Nat.eq_zero_or_pos bs.sectorsPerFat32.toNat with hzero | hfat
      · have := bs.reservedSectors.toNat_lt
        unfold dataStart
        rw [hzero]
        omega
      · have : 1 ≤ (clusterEnd bs - 2) * bs.sectorsPerCluster.toNat :=
          Nat.mul_pos (by unfold clusterEnd; omega) hpos
        omega
    refine ⟨⟨_, dataStartSector_eq_some.mpr (toNat_ofNat32 hstart)⟩, fun c h2 hc => ?_⟩
    refine (cluster_below_iff le_rfl hpos h2).mpr (le_trans ?_ hle)
    have := c.toNat_lt
    exact Nat.add_le_add_left (Nat.mul_le_mul_right _ (by unfold clusterEnd; omega)) _

lemma usable_iff {sector : Sector} (h : BootSector.parse sector = some bs) :
    Usable bs ↔ GoodGeometry sector := by
  obtain ⟨hbytes, hspc, hres, hfats, hspf⟩ := fields_of_parse h
  have hpos : 0 < bs.sectorsPerCluster ↔ 1 ≤ bs.sectorsPerCluster.toNat :=
    UInt8.lt_iff_toNat_lt
  have h512 : bs.bytesPerSector = 512 ↔ bs.bytesPerSector.toNat = 512 := by
    rw [← UInt16.toNat_inj]
    rfl
  constructor
  · rintro ⟨hcluster, hsector, hstart, hdata⟩
    have hle := (data_iff (hpos.mp hcluster)).mp ⟨hstart, hdata⟩
    rw [dataStart, clusterEnd, hres, hfats, hspf, hspc] at hle
    refine ⟨?_, hbytes ▸ h512.mp hsector, hle⟩
    rw [← hspc]
    exact Nat.pos_iff_ne_zero.mp (hpos.mp hcluster)
  · rintro ⟨hcluster, hsector, hle⟩
    rw [← hspc] at hcluster
    have hone : 1 ≤ bs.sectorsPerCluster.toNat := Nat.pos_of_ne_zero hcluster
    rw [← hres, ← hfats, ← hspf, ← hspc] at hle
    obtain ⟨hstart, hdata⟩ := (data_iff hone).mpr hle
    exact ⟨hpos.mpr hone, h512.mpr (hbytes.trans hsector), hstart, hdata⟩

/-- **What an accepted boot sector has to say.** A boot sector is accepted for its signature
alone; its geometry is usable when a cluster has a sector, a sector 512 bytes and the last
cluster of the table ends within the sectors that have a number. -/
theorem accepted_usable_iff (d : Disk) :
    ((∃ bs, (exec BootSector.read d).1 = .ok bs) ↔ number (d 0) 510 2 = 0xAA55) ∧
      ∀ bs, (exec BootSector.read d).1 = .ok bs → (Usable bs ↔ GoodGeometry (d 0)) := by
  simp only [read_ok_iff]
  exact ⟨parse_isSome_iff, fun bs h => usable_iff h⟩

theorem accepted_usable_iff_empty :
    (exec BootSector.read emptyVolume).1 = .ok smallVolume ∧ Usable smallVolume := by
  have hread : (exec BootSector.read emptyVolume).1 = .ok smallVolume :=
    (accepted_small rfl).1
  refine ⟨hread, ((accepted_usable_iff emptyVolume).2 smallVolume hread).mpr ⟨?_, ?_, ?_⟩⟩
  · decide +kernel
  · decide +kernel
  · decide +kernel

/-- A disk with nothing but the signature. -/
def signatureOnly : Disk := fun _ i =>
  if i.val = 510 then 0x55 else if i.val = 511 then 0xAA else 0

/-- The signature is enough for a volume whose clusters have no sector; creating a file there
panics. -/
theorem signature_suffices : ∃ (d : Disk) (bs : BootSector),
    (exec BootSector.read d).1 = .ok bs ∧ bs.sectorsPerCluster = 0 ∧ bs.bytesPerSector = 0 ∧
      (exec (createFile bs bs.rootCluster [0x41] []) d).1 = .panic := by
  refine ⟨signatureOnly, ⟨0, 0, 0, 0, 0, 0, 0⟩, ?_, rfl, rfl, ?_⟩
  · decide +kernel
  · decide +kernel

/-! ### The search and the end of the volume -/

/-- The number of clusters of the volume; their numbers start at 2. -/
def clusterCount (bs : BootSector) : ℕ :=
  (bs.totalSectors32.toNat - dataStart bs) / bs.sectorsPerCluster.toNat

/-- A cluster of the volume. -/
def InVolume (bs : BootSector) (c : UInt32) : Prop :=
  2 ≤ c.toNat ∧ c.toNat < clusterCount bs + 2

lemma inVolume_iff (hpos : 1 ≤ bs.sectorsPerCluster.toNat) (h2 : 2 ≤ c.toNat) :
    (∃ s, bs.clusterToSector c = some s ∧
        s.toNat + bs.sectorsPerCluster.toNat ≤ bs.totalSectors32.toNat) ↔ InVolume bs c := by
  have hcount : c.toNat - 1 ≤ clusterCount bs ↔
      (c.toNat - 1) * bs.sectorsPerCluster.toNat ≤ bs.totalSectors32.toNat - dataStart bs :=
    Nat.le_div_iff_mul_le hpos
  have hone : 1 ≤ (c.toNat - 1) * bs.sectorsPerCluster.toNat := Nat.mul_pos (by omega) hpos
  rw [cluster_below_iff bs.totalSectors32.toNat_lt.le hpos h2]
  unfold InVolume
  omega

/-- **When a free cluster lies inside the volume.** The search returns a cluster of the volume
exactly if one of them is free; from a full volume it goes on into the entries of the table
behind it. -/
theorem found_inside_iff (hpos : 1 ≤ bs.sectorsPerCluster.toNat)
    (hs : bs.sectorsPerFat32.toNat ≤ 2 ^ 21)
    (hfat : clusterCount bs + 2 ≤ 128 * bs.sectorsPerFat32.toNat)
    (hfind : (exec (findFreeCluster bs) d).1 = .ok c) :
    (∃ s, bs.clusterToSector c = some s ∧
        s.toNat + bs.sectorsPerCluster.toNat ≤ bs.totalSectors32.toNat) ↔
      ∃ c', InVolume bs c' ∧ fatWord bs d c' = 0 := by
  have hf : TableFits bs := by
    unfold TableFits
    omega
  rcases exec_findFreeCluster hf d with ⟨c₁, he, hc, h0, hleast⟩ | ⟨he, -⟩
  · rw [he] at hfind
    obtain rfl : c₁ = c := by simpa using hfind
    rw [inVolume_iff hpos hc.1]
    constructor
    · intro hin
      exact ⟨c₁, hin, h0⟩
    · rintro ⟨c', hin, h0'⟩
      have hr : InRange bs c' := ⟨hin.1, by unfold entryCount; have := hin.2; omega⟩
      have hle : c₁ ≤ c' := by
        by_contra hlt
        exact hleast c' hr (UInt32.not_le.mp hlt) h0'
      exact ⟨hc.1, lt_of_le_of_lt (UInt32.le_iff_toNat_le.mp hle) hin.2⟩
  · rw [he] at hfind
    cases hfind

/-- A volume of two clusters; its table has entries for 126. -/
def twoClusters : BootSector := ⟨512, 1, 1, 1, 4, 1, 2⟩

theorem found_inside_iff_three :
    (exec (findFreeCluster twoClusters) (oneFree twoClusters 3)).1 = .ok 3 ∧
      ∃ s, twoClusters.clusterToSector 3 = some s ∧ s.toNat + 1 ≤ 4 := by
  have hfind : (exec (findFreeCluster twoClusters) (oneFree twoClusters 3)).1 = .ok 3 := by
    decide +kernel
  exact ⟨hfind, (found_inside_iff (by decide) (by decide) (by decide) hfind).mpr
    ⟨3, ⟨by decide, by decide⟩, by decide +kernel⟩⟩

/-- Both clusters of the volume are in use, and the search returns the one behind them. -/
theorem found_outside : ∃ (bs : BootSector) (d : Disk) (c s : UInt32),
    1 ≤ bs.numFats.toNat ∧ 1 ≤ bs.sectorsPerCluster.toNat ∧
      bs.sectorsPerFat32.toNat ≤ 2 ^ 21 ∧ dataStart bs ≤ bs.totalSectors32.toNat ∧
      clusterCount bs + 2 ≤ 128 * bs.sectorsPerFat32.toNat ∧
      (exec (findFreeCluster bs) d).1 = .ok c ∧ bs.clusterToSector c = some s ∧
      bs.totalSectors32.toNat < s.toNat + bs.sectorsPerCluster.toNat := by
  refine ⟨twoClusters, oneFree twoClusters 4, 4, 4, ?_⟩
  decide +kernel

end RustyOs.FatGeometry
