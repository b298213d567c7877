import RustyOs.FatHistory

/-!
When `create_file` succeeds.

What a call returns is decided by two numbers, that of the free clusters and that of the free
slots of the directory. A call with a name that is not refused takes the clusters its data need,
or all that are left, whether it succeeds or not; nothing gives them back.
-/

namespace RustyOs.FatCapacity

open RustyOs.BlockProg RustyOs.BlockProg.Prog RustyOs.Chunks RustyOs.Fat32 RustyOs.FatTable
open RustyOs.FatAlloc RustyOs.FatData RustyOs.FatCreate RustyOs.FatFrame RustyOs.FatRoundTrip
open RustyOs.FatDirectory RustyOs.FatHistory

/-! ### The two counters -/

structure Room where
  clusters : ℕ
  slots : ℕ
  deriving DecidableEq

/-- The number of clusters that the data of a file need. -/
def clustersFor (bs : BootSector) (data : List UInt8) : ℕ :=
  (data.length + 512 * bs.sectorsPerCluster.toNat - 1) / (512 * bs.sectorsPerCluster.toNat)

/-- A call of `create_file` on the counters. An entry that starts like a free slot leaves its
slot free. -/
def Room.call (bs : BootSector) (room : Room) (r : Request) : Res FatError Unit × Room :=
  if 12 < r.1.length then (.err .filenameTooLong, room)
  else if room.clusters < clustersFor bs r.2 then
    (.err .noFreeClusters, { room with clusters := 0 })
  else
    let clusters := room.clusters - clustersFor bs r.2
    if room.slots = 0 then (.err .noFreeDirEntries, { room with clusters := clusters })
    else
      let slots := if isLive (createDirEntry r.1 0 0) then room.slots - 1 else room.slots
      (.ok (), { clusters := clusters, slots := slots })

/-- What a sequence of calls returns, by the counters. -/
def Room.outcomes (bs : BootSector) : Room → List Request → List (Res FatError Unit)
  | _, [] => []
  | room, r :: rs => (room.call bs r).1 :: Room.outcomes bs (room.call bs r).2 rs

/-- What a sequence of calls returns. -/
def outcomes (bs : BootSector) (dir : UInt32) : Disk → List Request → List (Res FatError Unit)
  | _, [] => []
  | d, r :: rs =>
    (exec (createFile bs dir r.1 r.2) d).1 :: outcomes bs dir (createIn bs dir d r) rs

/-- The number of slots of a directory that may be taken. -/
def freeSlotCount (bs : BootSector) (ds : List UInt32) (d : Disk) : ℕ :=
  (dirSlots bs ds).countP fun p => !isLive (contents d p)

def roomOf (bs : BootSector) (ds : List UInt32) (d : Disk) : Room :=
  ⟨(freeClusters bs d).length, freeSlotCount bs ds d⟩

variable {bs : BootSector} {d d' : Disk} {dir : UInt32} {ds cs : List UInt32}

lemma length_chunksOf_eq (hv : VolumeFits bs) (data : List UInt8) :
    (chunksOf bs data).length = clustersFor bs data := by
  have hpos := hv.cluster
  exact length_chunksUpTo (le_refl _) (by omega)

/-! ### The free clusters -/

lemma filter_notMem_take {l : List UInt32} (hl : l.Nodup) (n : ℕ) :
    l.filter (fun x => x ∉ l.take n) = l.drop n := by
  have hsplit := List.take_append_drop n l
  rw [← hsplit] at hl
  have hdisj := List.disjoint_of_nodup_append hl
  conv_lhs => rw [← hsplit]
  rw [List.filter_append, List.filter_eq_nil_iff.mpr, List.nil_append, List.filter_eq_self.mpr]
  · intro x hx
    simpa using fun h => hdisj h hx
  · intro x hx
    simpa using hx

lemma nodup_freeClusters (hf : TableFits bs) (d : Disk) : (freeClusters bs d).Nodup :=
  ((pairwise_clusters hf).imp fun h => UInt32.ne_of_lt h).filter _

lemma Wrote.freeClusters_eq (hv : VolumeFits bs) {chunks : List (List UInt8)}
    (h : Wrote bs none cs chunks d d') (hcs : cs = (freeClusters bs d).take cs.length) :
    freeClusters bs d' = (freeClusters bs d).drop cs.length := by
  rw [← filter_notMem_take (nodup_freeClusters hv.tableFits d), ← hcs, freeClusters, freeClusters,
    List.filter_filter]
  refine List.filter_congr fun x hx => ?_
  have hlt := lt_of_mem_clusters hv.tableFits hx
  rw [Bool.eq_iff_iff]
  simp only [decide_eq_true_eq, Bool.and_eq_true]
  by_cases hm : x ∈ cs
  · simp [hm, h.taken hv x hm]
  · simp [hm, h.fatWord_other hv hlt hm (by simp)]

lemma freeClusters_congr (h : ∀ x : UInt32, x.toNat < entryCount bs →
    fatWord bs d' x = fatWord bs d x) (hf : TableFits bs) :
    freeClusters bs d' = freeClusters bs d := by
  refine List.filter_congr fun x hx => ?_
  rw [h x (lt_of_mem_clusters hf hx)]

/-! ### The free slots -/

lemma freeSlotCount_add (bs : BootSector) (ds : List UInt32) (d : Disk) :
    (listed bs ds d).length + freeSlotCount bs ds d = (dirSlots bs ds).length :=
  Slots.length_listing_add isLive decodeEntry (contents d) (dirSlots bs ds)

lemma freeSlotCount_putEntry (hv : VolumeFits bs) (hd : DirAt bs dir ds d) {p : Place}
    (hfree : Slots.firstFree isLive (contents d) (dirSlots bs ds) = some p)
    (entry : Fin 32 → UInt8) : freeSlotCount bs ds (putEntry d p.1 p.2 entry) =
      if isLive entry then freeSlotCount bs ds d - 1 else freeSlotCount bs ds d := by
  have hold := freeSlotCount_add bs ds d
  have hnew := freeSlotCount_add bs ds (putEntry d p.1 p.2 entry)
  split_ifs with hlive
  · obtain ⟨pre, post, hsplit, hpre, -, hlist⟩ := hd.listed_insert hv hfree hlive
    have hlen : pre.length ≤ (listed bs ds d).length := by
      rw [listed, hsplit, Slots.listing_append, List.length_append,
        Slots.length_listing_live hpre]
      omega
    rw [hlist, List.length_insertIdx_of_le_length hlen] at hnew
    omega
  · have hdead : isLive (contents d p) = false := by simpa using List.find?_some hfree
    rw [listed_unchanged hdead (Bool.eq_false_iff.mpr hlive)] at hnew
    omega

lemma freeSlotCount_pos {p : Place}
    (hfree : Slots.firstFree isLive (contents d) (dirSlots bs ds) = some p) :
    freeSlotCount bs ds d ≠ 0 := by
  have hdead : isLive (contents d p) = false := by simpa using List.find?_some hfree
  have hpos : 0 < freeSlotCount bs ds d :=
    List.countP_pos_iff.mpr ⟨p, List.mem_of_find?_eq_some hfree, by rw [hdead]; rfl⟩
  omega

lemma freeSlotCount_zero (h : ∀ p ∈ dirSlots bs ds, ¬ SlotFree d p) :
    freeSlotCount bs ds d = 0 := by
  refine List.countP_eq_zero.mpr fun p hp hdead => h p hp ?_
  exact isLive_eq_false.mp (by simpa using hdead)

/-! ### Calls -/

lemma call_exact (hv : VolumeFits bs) (hd : DirAt bs dir ds d) (r : Request) :
    (exec (createFile bs dir r.1 r.2) d).1 = ((roomOf bs ds d).call bs r).1 ∧
      roomOf bs ds (createIn bs dir d r) = ((roomOf bs ds d).call bs r).2 := by
  rw [Room.call, createIn]
  rcases exec_createFile hv dir r.1 r.2 d with
    ⟨hlong, he⟩ | ⟨hname, cs, d₁, hw, hcs, hrest⟩
  · rw [he, if_pos hlong]
    exact ⟨rfl, rfl⟩
  have hk := Wrote.keeps_path hv hw hd.path hd.inRange
  have hclusters := Wrote.freeClusters_eq hv hw hcs
  have hslots : freeSlotCount bs ds d₁ = freeSlotCount bs ds d :=
    List.countP_congr fun p hp => by rw [contents_of_keeps hk hp]
  have hle : cs.length ≤ (freeClusters bs d).length := by
    have := congrArg List.length hcs
    rw [List.length_take] at this
    omega
  rw [if_neg (by omega), ← length_chunksOf_eq hv]
  rcases hrest with ⟨he, hlen, hnone⟩ | ⟨he, hlen⟩
  · -- all free clusters have been taken
    have hempty : freeClusters bs d₁ = [] := by
      refine List.filter_eq_nil_iff.mpr fun x hx h => ?_
      obtain ⟨h2, h0⟩ := of_decide_eq_true h
      exact hnone x ⟨h2, lt_of_mem_clusters hv.tableFits hx⟩ h0
    have hfew : (freeClusters bs d).length ≤ cs.length := by
      rw [hclusters] at hempty
      exact List.drop_eq_nil_iff.mp hempty
    have hcond : (roomOf bs ds d).clusters < (chunksOf bs r.2).length := by
      simp only [roomOf]
      omega
    rw [he, if_pos hcond]
    refine ⟨rfl, ?_⟩
    simp only [roomOf, hempty, hslots, List.length_nil]
  · have hcond : ¬ (roomOf bs ds d).clusters < (chunksOf bs r.2).length := by
      simp only [roomOf]
      omega
    have hleft : (freeClusters bs d₁).length =
        (freeClusters bs d).length - (chunksOf bs r.2).length := by
      rw [hclusters, List.length_drop, hlen]
    rw [he, if_neg hcond]
    have hd₁ := hd.of_keeps hk
    rcases hd₁.exec_write hv (entryFor r.1 r.2 cs.head?) with ⟨p, hfree, hput, -⟩ | ⟨hput, hfull⟩
    · have hpos : (roomOf bs ds d).slots ≠ 0 := by
        rw [roomOf, ← hslots]
        exact freeSlotCount_pos hfree
      rw [hput, if_neg hpos]
      refine ⟨rfl, ?_⟩
      have hlive : isLive (entryFor r.1 r.2 cs.head?) = isLive (createDirEntry r.1 0 0) := by
        simp only [isLive, DirEntry.isValid, entryFor, decode_name]
      have hin : p.1 ∈ chainSectors bs ds :=
        sector_mem_of_place (List.mem_of_find?_eq_some hfree)
      simp only [roomOf, freeSlotCount_putEntry hv hd₁ hfree, hlive, hslots,
        freeClusters_congr (fun x hx => fatWord_putEntry hv hd.inRange hin p.2 _ hx)
          hv.tableFits, hleft]
    · have hzero : (roomOf bs ds d).slots = 0 := by
        rw [roomOf, ← hslots]
        exact freeSlotCount_zero hfull
      rw [hput, if_pos hzero]
      refine ⟨rfl, ?_⟩
      simp only [roomOf, hslots, hleft]

/-- **Two counters decide every call.** For any sequence of calls of `create_file` on a
directory, what they return is what the counters give, started with the number of free clusters
and that of free slots of the directory. -/
theorem outcomes_exact (hv : VolumeFits bs)
    (hd : (exec (followClusterChain bs dir) d).1 = .ok ds) (hds : ∀ x ∈ ds, InRange bs x)
    (rs : List Request) : outcomes bs dir d rs = (roomOf bs ds d).outcomes bs rs := by
  have hdir := DirAt.of_follow hd hds
  clear hd
  induction rs generalizing d with
  | nil => rfl
  | cons r rs ih =>
    obtain ⟨hres, hroom⟩ := call_exact hv hdir r
    rw [outcomes, Room.outcomes, hres, ih (hdir.create hv r).1, hroom]

/-- One cluster is free. The first call takes it, the second finds none, and a file without data
needs none. -/
theorem outcomes_exact_small : outcomes smallVolume 2 smallDisk
      [([0x41], [7]), ([0x42], [7]), ([0x43], [])] =
    [.ok (), .err .noFreeClusters, .ok ()] := by
  rw [outcomes_exact smallVolume_fits smallDisk_dir smallDisk_dir_inRange]
  have hroom : roomOf smallVolume [2] smallDisk = ⟨1, 16⟩ := by decide +kernel
  rw [hroom]
  decide +kernel

end RustyOs.FatCapacity
