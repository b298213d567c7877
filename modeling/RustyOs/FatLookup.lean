import RustyOs.FatAlloc

/-!
The two methods that only read the table, `follow_cluster_chain` and `find_free_cluster`.

Both are described on the bytes of the table: it starts at the sector `reserved_sectors`, and
the word of cluster `c` is at its byte `4 * c`.
-/

namespace RustyOs.FatLookup

open RustyOs.Word32 RustyOs.BlockProg RustyOs.BlockProg.Prog RustyOs.Links RustyOs.Fat32
open RustyOs.FatTable RustyOs.FatAlloc

variable (bs : BootSector) (d : Disk)

/-- Byte `i` of the table. -/
def tableByte (i : ℕ) : UInt8 :=
  d (UInt32.ofNat (bs.reservedSectors.toNat + i / 512)) (byteIndex i)

/-- The little-endian word at byte `4 * c` of the table. -/
def tableWord (c : UInt32) : UInt32 :=
  fromLeBytes (tableByte bs d (4 * c.toNat)) (tableByte bs d (4 * c.toNat + 1))
    (tableByte bs d (4 * c.toNat + 2)) (tableByte bs d (4 * c.toNat + 3))

lemma tableByte_eq (c : UInt32) {k : ℕ} (hk : k < 4) (h : fatOffset c + k < 512) :
    tableByte bs d (4 * c.toNat + k) = d (fatLba bs c) ⟨fatOffset c + k, h⟩ := by
  have hsector : (4 * c.toNat + k) / 512 = c.toNat / 128 := by omega
  have hoffset : (4 * c.toNat + k) % 512 = fatOffset c + k := by
    unfold fatOffset
    omega
  simp only [tableByte, byteIndex, hsector, hoffset, fatLba]

lemma tableWord_eq_fatWord : tableWord bs d = fatWord bs d := by
  funext c
  have h := fatOffset_lt c
  rw [tableWord, fatWord, getWord, ← tableByte_eq bs d c (by omega) (by omega),
    ← tableByte_eq bs d c (by omega) (by omega), ← tableByte_eq bs d c (by omega) (by omega)]
  congr 1
  exact tableByte_eq bs d c (k := 0) (by omega) (by omega)

lemma fatNext_eq_nextUntil (f : UInt32 → UInt32) :
    fatNext f = nextUntil f (endOfChain ≤ ·) := rfl

/-! ### The chain walk -/

variable {bs d} {start : UInt32}

/-- The walk passes `n` clusters, the link of the last being the first end mark. -/
def EndsAfter (f : UInt32 → UInt32) (start : UInt32) (n : ℕ) : Prop :=
  1 ≤ n ∧ endOfChain ≤ f^[n] start ∧ ∀ i, 1 ≤ i → i < n → f^[i] start < endOfChain

lemma path_iff {f : UInt32 → UInt32} {cs : List UInt32} : Path (fatNext f) start cs ↔
    ∃ n, EndsAfter f start n ∧ cs = (List.range n).map fun i => f^[i] start := by
  rw [fatNext_eq_nextUntil, path_nextUntil_iff]
  simp only [EndsAfter, UInt32.not_le, and_assoc]

lemma exists_endsAfter {f : UInt32 → UInt32} {n : ℕ} (h1 : 1 ≤ n)
    (hn : endOfChain ≤ f^[n] start) : ∃ m ≤ n, EndsAfter f start m := by
  have hex : ∃ m, 1 ≤ m ∧ endOfChain ≤ f^[m] start := ⟨n, h1, hn⟩
  refine ⟨Nat.find hex, Nat.find_min' hex ⟨h1, hn⟩, (Nat.find_spec hex).1,
    (Nat.find_spec hex).2, fun i hi hlt => ?_⟩
  by_contra hstop
  exact Nat.find_min hex hlt ⟨hi, UInt32.not_lt.mp hstop⟩

lemma follow_disk (bs : BootSector) (d : Disk) (start : UInt32) :
    (exec (followClusterChain bs start) d).2 = d := by
  rw [exec_followClusterChain]
  rcases walk (fatNext (fatWord bs d)) maxIterations start with _ | l <;> rfl

lemma follow_ok_iff {cs : List UInt32} :
    exec (followClusterChain bs start) d = (.ok cs, d) ↔
      ∃ n, n ≤ 10000 ∧ EndsAfter (tableWord bs d) start n ∧
        cs = (List.range n).map fun i => (tableWord bs d)^[i] start := by
  rw [Prod.ext_iff, and_iff_left (follow_disk bs d start), exec_followClusterChain_ok, path_iff,
    tableWord_eq_fatWord]
  constructor
  · rintro ⟨⟨n, he, rfl⟩, hlen⟩
    rw [List.length_map, List.length_range] at hlen
    exact ⟨n, hlen, he, rfl⟩
  · rintro ⟨n, hlen, he, rfl⟩
    refine ⟨⟨n, he, rfl⟩, ?_⟩
    rw [List.length_map, List.length_range]
    exact hlen

lemma follow_err_iff : exec (followClusterChain bs start) d = (.err .chainTooLong, d) ↔
    ∀ cs, exec (followClusterChain bs start) d ≠ (.ok cs, d) := by
  rw [exec_followClusterChain]
  rcases walk (fatNext (fatWord bs d)) maxIterations start with _ | l <;> simp

/-- **The chain walk is exact.** It returns the clusters in front of the first end mark when
there is one within 10000 links, all different, and otherwise fails; the disk stays as it is
and nothing overflows. -/
theorem followClusterChain_exact (bs : BootSector) (d : Disk) (start : UInt32) :
    (∀ cs, exec (followClusterChain bs start) d = (.ok cs, d) ↔
      ∃ n, (1 ≤ n ∧ n ≤ 10000) ∧ 0x0FFFFFF8 ≤ (tableWord bs d)^[n] start ∧
        (∀ i, 1 ≤ i → i < n → (tableWord bs d)^[i] start < 0x0FFFFFF8) ∧
        cs = (List.range n).map fun i => (tableWord bs d)^[i] start) ∧
      (∀ cs, exec (followClusterChain bs start) d = (.ok cs, d) → cs.Nodup) ∧
      (exec (followClusterChain bs start) d = (.err .chainTooLong, d) ↔
        ∀ n, 1 ≤ n → n ≤ 10000 → (tableWord bs d)^[n] start < 0x0FFFFFF8) := by
  refine ⟨fun cs => ?_, fun cs h => ?_, ?_⟩
  · rw [follow_ok_iff]
    constructor
    · rintro ⟨n, hle, ⟨h1, hn, hlt⟩, rfl⟩
      exact ⟨n, ⟨h1, hle⟩, hn, hlt, rfl⟩
    · rintro ⟨n, ⟨h1, hle⟩, hn, hlt, rfl⟩
      exact ⟨n, hle, ⟨h1, hn, hlt⟩, rfl⟩
  · have hok : (exec (followClusterChain bs start) d).1 = .ok cs := by rw [h]
    exact ((exec_followClusterChain_ok bs).mp hok).1.nodup
  · rw [follow_err_iff]
    constructor
    · intro hnone n h1 hle
      by_contra hstop
      obtain ⟨m, hm, he⟩ := exists_endsAfter h1 (UInt32.not_lt.mp hstop)
      exact hnone _ (follow_ok_iff.mpr ⟨m, hm.trans hle, he, rfl⟩)
    · intro hlt cs hcs
      obtain ⟨n, hle, ⟨h1, hn, -⟩, -⟩ := follow_ok_iff.mp hcs
      exact UInt32.not_le.mpr (hlt n h1 hle) hn

/-- A disk on which cluster 3 follows cluster 2. -/
def twoLinked : Disk := setEntry smallVolume (fun _ => endMarks) 2 3

lemma follow_twoLinked :
    exec (followClusterChain smallVolume 2) twoLinked = (.ok [2, 3], twoLinked) :=
  Prod.ext (by decide +kernel) (follow_disk smallVolume twoLinked 2)

theorem followClusterChain_exact_pair :
    exec (followClusterChain smallVolume 2) twoLinked = (.ok [2, 3], twoLinked) ∧
      ([2, 3] : List UInt32).Nodup :=
  ⟨follow_twoLinked,
    (followClusterChain_exact smallVolume twoLinked 2).2.1 [2, 3] follow_twoLinked⟩

/-! ### The search -/

/-- The clusters of the table with the word zero. -/
def freeSet (bs : BootSector) (d : Disk) : Set UInt32 :=
  {c | 2 ≤ c.toNat ∧ c.toNat < 128 * bs.sectorsPerFat32.toNat ∧ tableWord bs d c = 0}

lemma mem_freeSet {c : UInt32} : c ∈ freeSet bs d ↔ InRange bs c ∧ fatWord bs d c = 0 := by
  rw [freeSet, Set.mem_ofPred_eq, tableWord_eq_fatWord, InRange, entryCount, and_assoc]

lemma search_disk (hf : TableFits bs) (d : Disk) : (exec (findFreeCluster bs) d).2 = d := by
  rcases exec_findFreeCluster hf d with ⟨c, he, -⟩ | ⟨he, -⟩
  · rw [he]
  · rw [he]

/-- **The free-cluster search is exact.** It returns the least cluster of the table whose word
is zero, and fails only when there is none; the disk stays as it is and nothing overflows. -/
theorem findFreeCluster_exact (bs : BootSector) (hs : bs.sectorsPerFat32.toNat ≤ 2 ^ 23)
    (d : Disk) :
    (∀ c, exec (findFreeCluster bs) d = (.ok c, d) ↔ IsLeast (freeSet bs d) c) ∧
      (exec (findFreeCluster bs) d = (.err .noFreeClusters, d) ↔ freeSet bs d = ∅) := by
  rcases exec_findFreeCluster hs d with ⟨c, he, hc, h0, hleast⟩ | ⟨he, hnone⟩
  · have hmem : c ∈ freeSet bs d := mem_freeSet.mpr ⟨hc, h0⟩
    have hle : ∀ c' ∈ freeSet bs d, c ≤ c' := by
      intro c' hc'
      obtain ⟨hr, h0'⟩ := mem_freeSet.mp hc'
      by_contra hlt
      exact hleast c' hr (UInt32.not_le.mp hlt) h0'
    rw [he]
    refine ⟨fun c' => ?_, ?_⟩
    · constructor
      · intro h
        obtain rfl : c = c' := by simpa using h
        exact ⟨hmem, hle⟩
      · rintro ⟨hmem', hle'⟩
        rw [UInt32.le_antisymm (hle c' hmem') (hle' hmem)]
    · refine iff_of_false (by simp) fun hempty => ?_
      rw [hempty] at hmem
      exact hmem
  · have hempty : freeSet bs d = ∅ := by
      ext c
      refine iff_of_false (fun hc => ?_) (Set.notMem_empty c)
      exact hnone c (mem_freeSet.mp hc).1 (mem_freeSet.mp hc).2
    rw [he, hempty]
    exact ⟨fun c => iff_of_false (by simp) fun h => h.1, by simp⟩

/-- On a disk with one free cluster the search finds it. -/
theorem findFreeCluster_exact_small : smallVolume.sectorsPerFat32.toNat ≤ 2 ^ 23 ∧
    IsLeast (freeSet smallVolume (oneFree smallVolume 5)) 5 :=
  ⟨by decide, ((findFreeCluster_exact smallVolume (by decide) (oneFree smallVolume 5)).1 5).mp
    (Prod.ext (by decide +kernel) (search_disk (show _ ≤ 2 ^ 23 by decide) _))⟩

end RustyOs.FatLookup
