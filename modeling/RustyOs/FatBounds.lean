import RustyOs.FatFrame

/-!
Which sectors `read_file` and `list_directory` read.

Neither method looks at a cluster number before it uses it, and numbers come from the table and
from directory entries. Here is what a chain must look like for the two methods to stay inside
the primary table and the data region: nothing less will do.
-/

namespace RustyOs.FatBounds

open RustyOs.Word32 RustyOs.BlockProg RustyOs.BlockProg.Prog RustyOs.Links RustyOs.Fat32
open RustyOs.FatTable RustyOs.FatAlloc RustyOs.FatData RustyOs.FatFrame

variable {bs : BootSector} {d : Disk} {c x : UInt32} {cs : List UInt32}

def InTable (bs : BootSector) (lba : UInt32) : Prop :=
  bs.reservedSectors.toNat ≤ lba.toNat ∧
    lba.toNat < bs.reservedSectors.toNat + bs.sectorsPerFat32.toNat

/-- The sectors of the clusters in range. -/
def InData (bs : BootSector) (lba : UInt32) : Prop :=
  dataStart bs ≤ lba.toNat ∧
    lba.toNat < dataStart bs + (entryCount bs - 2) * bs.sectorsPerCluster.toNat

/-- The program comes to its end, and has read nothing but the primary table and the data
region. -/
def Contained {α : Type} (bs : BootSector) (p : FatM α) (d : Disk) : Prop :=
  (∃ v, (exec p d).1 = .ok v) ∧ ∀ lba ∈ p.reads d, InTable bs lba ∨ InData bs lba

/-! ### The chain -/

lemma inRange_path_iff (h : Path (fatNext (fatWord bs d)) c cs) :
    (∀ x ∈ cs, InRange bs x) ↔
      InRange bs c ∧ ∀ x ∈ cs, fatWord bs d x < endOfChain → InRange bs (fatWord bs d x) := by
  induction h with
  | last hend =>
    have hword := UInt32.not_lt.mpr (fatNext_eq_none.mp hend)
    simp [hword]
  | cons hnext t ih =>
    obtain ⟨rfl, hlt⟩ := fatNext_eq_some.mp hnext
    simp only [List.forall_mem_cons, ih, hlt, true_imp_iff]

lemma reads_followFrom_succ (n : ℕ) (c : UInt32) (acc : List UInt32) :
    (followFrom bs (n + 1) c acc).reads d = fatLba bs c ::
      (if endOfChain ≤ fatWord bs d c then .ret (acc ++ [c])
        else followFrom bs n (fatWord bs d c) (acc ++ [c])).reads d := by
  rw [followFrom_succ]
  rfl

lemma reads_followFrom (n : ℕ) (acc : List UInt32) (h : Path (fatNext (fatWord bs d)) c cs)
    (hlen : cs.length ≤ n) : (followFrom bs n c acc).reads d = cs.map (fatLba bs) := by
  induction h generalizing n acc with
  | last hend =>
    cases n with
    | zero => cases hlen
    | succ n =>
      rw [reads_followFrom_succ, if_pos (fatNext_eq_none.mp hend)]
      rfl
  | cons hnext t ih =>
    obtain ⟨rfl, hlt⟩ := fatNext_eq_some.mp hnext
    cases n with
    | zero => cases hlen
    | succ n =>
      rw [reads_followFrom_succ, if_neg (UInt32.not_le.mpr hlt),
        ih n _ (Nat.le_of_succ_le_succ hlen), List.map_cons]

/-! ### The loops over a chain -/

section loops

variable {β : Type} {s : Await} {f : β → Sector → β}

lemma reads_forOffsets (hv : VolumeFits bs) (hc : InRange bs c) {is : List ℕ}
    (his : ∀ i ∈ is, i < bs.sectorsPerCluster.toNat) (acc : β) :
    (forOffsets s f (sectorAt bs c 0) is acc).reads d = is.map (sectorAt bs c) := by
  induction is generalizing acc with
  | nil => rfl
  | cons i is ih =>
    rw [forOffsets, add_sectorAt hv hc (his i (by simp))]
    exact congrArg (sectorAt bs c i :: ·) (ih (fun j hj => his j (by simp [hj])) _)

lemma reads_forClusters (hv : VolumeFits bs) (hcs : ∀ c ∈ cs, InRange bs c) (acc : β) :
    (forClusters bs s f cs acc).reads d = chainSectors bs cs := by
  induction cs generalizing acc with
  | nil => rfl
  | cons c cs ih =>
    have hc := hcs c (by simp)
    have his : ∀ i ∈ List.range bs.sectorsPerCluster.toNat, i < bs.sectorsPerCluster.toNat :=
      fun i hi => List.mem_range.mp hi
    rw [forClusters, clusterToSector_eq hv hc, ofOption_some, ret_bind,
      reads_bind_ok (exec_forOffsets hv hc his acc), reads_forOffsets hv hc his,
      ih (fun x hx => hcs x (by simp [hx])), chainSectors_cons]

lemma head_reads_forOffsets (hpos : 1 ≤ bs.sectorsPerCluster.toNat) (lba : UInt32) (acc : β) :
    lba ∈ (forOffsets s f lba (List.range bs.sectorsPerCluster.toNat) acc).reads d := by
  obtain ⟨n, hn⟩ := Nat.exists_eq_add_of_le' hpos
  have hzero : add32 lba (UInt32.ofNat 0) = some lba := by
    rw [add32_eq_some]
    rfl
  rw [hn, List.range_succ_eq_map, forOffsets, hzero]
  exact List.mem_cons_self

lemma first_sector_read (hpos : 1 ≤ bs.sectorsPerCluster.toNat) {acc v : β} {d' : Disk}
    (h : exec (forClusters bs s f cs acc) d = (.ok v, d')) :
    ∀ c ∈ cs, ∃ lba ∈ (forClusters bs s f cs acc).reads d, bs.clusterToSector c = some lba := by
  induction cs generalizing acc d with
  | nil => intro c hc; cases hc
  | cons c cs ih =>
    rw [forClusters] at h ⊢
    rcases hlba : bs.clusterToSector c with _ | lba
    · rw [hlba] at h
      cases h
    · rw [hlba, ofOption_some, ret_bind] at h
      obtain ⟨acc', d₁, hoff, hrest⟩ := exec_of_bind_ok h
      rw [ofOption_some, ret_bind, reads_bind_ok hoff]
      intro x hx
      rcases List.mem_cons.mp hx with rfl | hx
      · exact ⟨lba, List.mem_append_left _ (head_reads_forOffsets hpos lba acc), hlba⟩
      · obtain ⟨lba', hread, hlba'⟩ := ih hrest x hx
        exact ⟨lba', List.mem_append_right _ hread, hlba'⟩

lemma inTable_fatLba (hc : InRange bs c) : InTable bs (fatLba bs c) := by
  have h := hc.2
  unfold entryCount at h
  unfold InTable
  rw [toNat_fatLba]
  omega

lemma inData_sectorAt (hv : VolumeFits bs) (hc : InRange bs c) {i : ℕ}
    (hi : i < bs.sectorsPerCluster.toNat) : InData bs (sectorAt bs c i) := by
  have hoff := offset_lt_region hc hi
  unfold InData
  rw [toNat_sectorAt hv hc hi]
  omega

lemma inRange_of_contained (hv : VolumeFits bs) (h : bs.clusterToSector c = some x)
    (hx : InTable bs x ∨ InData bs x) : InRange bs c := by
  obtain ⟨h2, hn⟩ := clusterToSector_iff.mp h
  have htable : bs.sectorsPerFat32.toNat ≤ bs.numFats.toNat * bs.sectorsPerFat32.toNat :=
    Nat.le_mul_of_pos_left _ hv.table
  refine ⟨h2, ?_⟩
  by_contra hge
  have hmul : (entryCount bs - 2) * bs.sectorsPerCluster.toNat ≤
      (c.toNat - 2) * bs.sectorsPerCluster.toNat := Nat.mul_le_mul_right _ (by omega)
  unfold InTable InData dataStart at hx
  unfold dataStart at hn
  omega

lemma contained_iff {γ : Type} (hv : VolumeFits bs)
    (h : (exec (followClusterChain bs c) d).1 = .ok cs) (acc : β) (g : β → γ) :
    Contained bs (followClusterChain bs c >>= fun cs =>
        forClusters bs s f cs acc >>= fun v => ret (g v)) d ↔ ∀ x ∈ cs, InRange bs x := by
  obtain ⟨hpath, hlen⟩ := (exec_followClusterChain_ok bs).mp h
  have hexec := exec_followClusterChain_path hpath hlen
  have hreads : (followClusterChain bs c).reads d = cs.map (fatLba bs) :=
    reads_followFrom _ _ hpath hlen
  unfold Contained
  rw [exec_bind_ok hexec, reads_bind_ok hexec, hreads]
  constructor
  · rintro ⟨⟨v, hend⟩, hin⟩ x hx
    obtain ⟨a, d₁, hfor, -⟩ := exec_of_bind_ok (exec_of_fst hend)
    rw [reads_bind_ok hfor] at hin
    obtain ⟨lba, hread, hlba⟩ := first_sector_read hv.cluster hfor x hx
    refine inRange_of_contained hv hlba (hin lba ?_)
    exact List.mem_append_right _ (List.mem_append_left _ hread)
  · intro hcs
    rw [exec_bind_ok (exec_forClusters hv hcs acc), reads_bind_ok (exec_forClusters hv hcs acc),
      reads_forClusters hv hcs]
    refine ⟨⟨_, rfl⟩, fun lba hlba => ?_⟩
    rw [List.mem_append, reads, List.append_nil, List.mem_map, mem_chainSectors] at hlba
    rcases hlba with ⟨x, hx, rfl⟩ | ⟨x, hx, i, hi, rfl⟩
    · exact .inl (inTable_fatLba (hcs x hx))
    · exact .inr (inData_sectorAt hv (hcs x hx) hi)

end loops

/-- **What keeps the reading methods inside.** The clusters of a chain are all in range exactly
when the first is and no link of the chain leads out, and this is exactly when `list_directory`
of the first cluster, or `read_file` of an entry with it, returns and reads nothing outside the
primary table and the data region. -/
theorem reads_contained_iff (hv : VolumeFits bs) {start : UInt32}
    (h : (exec (followClusterChain bs start) d).1 = .ok cs) :
    ((∀ c ∈ cs, InRange bs c) ↔ InRange bs start ∧
        ∀ c ∈ cs, fatWord bs d c < endOfChain → InRange bs (fatWord bs d c)) ∧
      (Contained bs (listDirectory bs start) d ↔ ∀ c ∈ cs, InRange bs c) ∧
      ∀ entry : DirEntry, entry.firstCluster = start →
        (Contained bs (readFile bs entry) d ↔ ∀ c ∈ cs, InRange bs c) := by
  refine ⟨inRange_path_iff ((exec_followClusterChain_ok bs).mp h).1, ?_, ?_⟩
  · have hlist : listDirectory bs start = followClusterChain bs start >>= fun cs =>
        forClusters bs .listRead (fun entries sector => entries ++ sectorEntries sector) cs [] >>=
          fun v => ret (id v) := by
      unfold listDirectory
      exact congrArg _ (funext fun cs => (bind_ret _).symm)
    rw [hlist]
    exact contained_iff hv h [] id
  · rintro entry rfl
    exact contained_iff hv h [] (List.take entry.fileSize.toNat)

/-! ### Clusters out of range -/

/-- The boot sector of `smallVolume`. -/
def bootSector : Sector := fun i =>
  if i.val = 0x0C then 2
  else if i.val = 0x0D ∨ i.val = 0x0E ∨ i.val = 0x10 ∨ i.val = 0x24 then 1
  else if i.val = 0x2C then 2
  else if i.val = 510 then 0x55
  else if i.val = 511 then 0xAA
  else 0

/-- A volume with an empty root directory, in which every cluster is a chain of its own. -/
def emptyVolume : Disk := fun lba =>
  if lba = 0 then bootSector else if lba = 1 then endMarks else fun _ => 0

/-- The same with a link from the root directory to cluster 1. -/
def strayVolume : Disk := setEntry smallVolume emptyVolume 2 1

/-- What `Fat32::new` accepts, with a data region and a root directory in it. -/
def Accepted (bs : BootSector) (d : Disk) : Prop :=
  (exec BootSector.read d).1 = .ok bs ∧ VolumeFits bs ∧ InRange bs bs.rootCluster

lemma accepted_small (h : d 0 = bootSector) : Accepted smallVolume d := by
  have hparse : BootSector.parse bootSector = some smallVolume := by decide
  refine ⟨?_, smallVolume_fits, smallDisk_dir_inRange 2 (List.mem_singleton_self 2)⟩
  rw [BootSector.read, readSector, read_bind, exec_read, ret_bind, h, hparse]
  rfl

theorem reads_contained_iff_empty : Accepted smallVolume emptyVolume ∧
    (exec (followClusterChain smallVolume 2) emptyVolume).1 = .ok [2] ∧
    Contained smallVolume (listDirectory smallVolume 2) emptyVolume := by
  have hfollow : (exec (followClusterChain smallVolume 2) emptyVolume).1 = .ok [2] := by
    decide +kernel
  refine ⟨accepted_small rfl, hfollow, ?_⟩
  exact (reads_contained_iff smallVolume_fits hfollow).2.1.mpr smallDisk_dir_inRange

/-- The volume after an empty file named `A` has been created. -/
def createdVolume : Disk := (exec (createFile smallVolume 2 [0x41] []) emptyVolume).2

lemma listDirectory_createdVolume : ∃ entries,
    (exec (listDirectory smallVolume 2) createdVolume).1 = .ok entries ∧
      decodeEntry (slot (createdVolume 2) 0) ∈ entries := by
  have hfollow : (exec (followClusterChain smallVolume 2) createdVolume).1 = .ok [2] := by
    decide +kernel
  obtain ⟨hpath, hlen⟩ := (exec_followClusterChain_ok smallVolume).mp hfollow
  refine ⟨_, congrArg Prod.fst
    (exec_listDirectory smallVolume_fits hpath hlen smallDisk_dir_inRange), ?_⟩
  apply List.mem_flatMap.mpr
  refine ⟨2, by decide, List.mem_filter.mpr ⟨?_, by decide +kernel⟩⟩
  exact List.mem_map.mpr ⟨0, List.mem_finRange 0, rfl⟩

/-- The table leads the root directory to cluster 1, and the entry of an empty file leads to
cluster 0: the first sector of neither can be computed. -/
theorem clusters_out_of_range :
    (∃ (bs : BootSector) (d : Disk), Accepted bs d ∧
      (exec (followClusterChain bs bs.rootCluster) d).1 = .ok [2, 1] ∧ ¬ InRange bs 1 ∧
      (exec (listDirectory bs bs.rootCluster) d).1 = .panic) ∧
    ∃ (bs : BootSector) (d d' : Disk) (entries : List DirEntry), Accepted bs d ∧
      exec (createFile bs bs.rootCluster [0x41] []) d = (.ok (), d') ∧ Accepted bs d' ∧
      (exec (listDirectory bs bs.rootCluster) d').1 = .ok entries ∧
      ∃ e ∈ entries, (exec (followClusterChain bs e.firstCluster) d').1 = .ok [0] ∧
        ¬ InRange bs 0 ∧ (exec (readFile bs e) d').1 = .panic := by
  constructor
  · refine ⟨smallVolume, strayVolume, accepted_small rfl, ?_, ?_, ?_⟩
    · decide +kernel
    · exact fun h => absurd h.1 (by decide)
    · decide +kernel
  · obtain ⟨entries, hlist, hmem⟩ := listDirectory_createdVolume
    refine ⟨smallVolume, emptyVolume, createdVolume, entries, accepted_small rfl, exec_of_fst ?_,
      accepted_small ?_, hlist, _, hmem, ?_, ?_, ?_⟩
    · decide +kernel
    · decide +kernel
    · decide +kernel
    · exact fun h => absurd h.1 (by decide)
    · decide +kernel

end RustyOs.FatBounds
