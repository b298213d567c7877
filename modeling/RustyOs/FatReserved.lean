import RustyOs.FatFrame

/-!
The reserved bits of a table entry.

A cluster number has 28 bits, and the other four of an entry are reserved. The driver takes all
32 as the number. Two disks whose entries differ in the reserved bits only are therefore told
apart: an entry with one of these bits set reads as an end mark, and is not free. Here is when
they are not.
-/

namespace RustyOs.FatReserved

open RustyOs.Word32 RustyOs.BlockProg RustyOs.BlockProg.Prog RustyOs.Links RustyOs.Fat32
open RustyOs.FatTable RustyOs.FatAlloc RustyOs.FatData RustyOs.FatFrame

variable {bs : BootSector} {d d' : Disk} {a b c : UInt32}

/-- The bits that are the cluster number. -/
def link (v : UInt32) : ℕ := v.toNat % 2 ^ 28

/-- All words of the disks are equal but for the reserved bits. -/
def SameLinks (d d' : Disk) : Prop := ∀ (lba : UInt32) (w : Fin 128),
  link (getWord (d lba) (4 * w.val) (wordOffset_lt w)) =
    link (getWord (d' lba) (4 * w.val) (wordOffset_lt w))

/-- The disks are equal but for the reserved bits of entries of the tables. -/
def SameButReserved (bs : BootSector) (d d' : Disk) : Prop :=
  SameLinks d d' ∧ ∀ lba : UInt32,
    lba.toNat < bs.reservedSectors.toNat ∨ dataStart bs ≤ lba.toNat → d' lba = d lba

/-! ### The walk -/

lemma fatOffset_eq (c : UInt32) : fatOffset c = 4 * (c.toNat % 128) := by
  unfold fatOffset
  omega

lemma SameLinks.fatWord (h : SameLinks d d') (c : UInt32) :
    link (fatWord bs d c) = link (fatWord bs d' c) := by
  have hw := h (fatLba bs c) ⟨c.toNat % 128, Nat.mod_lt _ (by decide)⟩
  simp only [← fatOffset_eq] at hw
  exact hw

lemma eq_of_link_eq (h : link a = link b) (ha : a < endOfChain) (hb : b < endOfChain) : a = b := by
  have ha : a.toNat < 268435448 := UInt32.lt_iff_toNat_lt.mp ha
  have hb : b.toNat < 268435448 := UInt32.lt_iff_toNat_lt.mp hb
  unfold link at h
  exact UInt32.toNat_inj.mp (by omega)

lemma follow_eq_iff (h : SameLinks d d') (bs : BootSector) (start : UInt32) :
    (exec (followClusterChain bs start) d).1 = (exec (followClusterChain bs start) d').1 ↔
      ∀ c ∈ visited (fatNext (fatWord bs d)) maxIterations start,
        (endOfChain ≤ fatWord bs d c ↔ endOfChain ≤ fatWord bs d' c) := by
  have hagree : ∀ x y y', fatNext (fatWord bs d) x = some y → fatNext (fatWord bs d') x = some y' →
      y = y' := by
    intro x y y' hy hy'
    obtain ⟨rfl, hlt⟩ := fatNext_eq_some.mp hy
    obtain ⟨rfl, hlt'⟩ := fatNext_eq_some.mp hy'
    exact eq_of_link_eq (h.fatWord x) hlt hlt'
  simp only [← fatNext_eq_none]
  rw [← walk_congr_iff hagree, exec_followClusterChain, exec_followClusterChain]
  rcases walk (fatNext (fatWord bs d)) maxIterations start with _ | l <;>
    rcases walk (fatNext (fatWord bs d')) maxIterations start with _ | l' <;> simp

/-! ### The search -/

lemma entryOffset_lt (p : ℕ) : 4 * (p % 128) + 3 < 512 := by omega

/-- Entry `p` of the table, as the search counts them. -/
def entryWord (bs : BootSector) (d : Disk) (p : ℕ) : UInt32 :=
  getWord (d (UInt32.ofNat (bs.reservedSectors.toNat + p / 128))) (4 * (p % 128)) (entryOffset_lt p)

/-- The entries of the second disk are free where those of the first are, up to the first free
one. -/
def EquallyFree (bs : BootSector) (d d' : Disk) (lo hi : ℕ) : Prop :=
  ∀ p, 2 ≤ p → lo ≤ p → p < hi → (∀ q, 2 ≤ q → lo ≤ q → q < p → entryWord bs d q ≠ 0) →
    (entryWord bs d p = 0 ↔ entryWord bs d' p = 0)

lemma entryWord_scan (idx : ℕ) (w : Fin 128) : entryWord bs d (128 * idx + w.val) =
    getWord (d (UInt32.ofNat (bs.reservedSectors.toNat + idx))) (4 * w.val) (wordOffset_lt w) := by
  have hw := w.isLt
  have hdiv : (128 * idx + w.val) / 128 = idx := by omega
  have hmod : (128 * idx + w.val) % 128 = w.val := by omega
  simp only [entryWord, hdiv, hmod]

lemma entryWord_eq_fatWord {p : ℕ} (hp : p < 2 ^ 32) :
    entryWord bs d p = fatWord bs d (UInt32.ofNat p) := by
  have hn : (UInt32.ofNat p).toNat = p := toNat_ofNat32 hp
  have hoff : fatOffset (UInt32.ofNat p) = 4 * (p % 128) := by rw [fatOffset_eq, hn]
  simp only [entryWord, fatWord, fatLba, hn, hoff]

lemma find?_finRange_congr {n : ℕ} {p p' : Fin n → Bool}
    (h : ∀ w, (∀ w' < w, p w' = false) → p w = p' w) :
    (List.finRange n).find? p = (List.finRange n).find? p' := by
  rw [← Fin.find?_eq_find?_finRange, ← Fin.find?_eq_find?_finRange]
  rcases hf : Fin.find? p with _ | w
  · rw [Fin.find?_eq_none_iff] at hf
    refine (Fin.find?_eq_none_iff.mpr fun w => ?_).symm
    rw [← h w fun w' _ => hf w', hf w]
  · rw [Fin.find?_eq_some_iff] at hf
    refine (Fin.find?_eq_some_iff.mpr ⟨?_, fun w' hw' => ?_⟩).symm
    · rw [← h w hf.2, hf.1]
    · rw [← h w' fun w'' hw'' => hf.2 w'' (hw''.trans hw'), hf.2 w' hw']

lemma stopsAt_eq_false {idx : ℕ} {w : Fin 128} (h2 : 2 ≤ 128 * idx + w.val)
    (h : stopsAt (d (UInt32.ofNat (bs.reservedSectors.toNat + idx))) idx w = false) :
    entryWord bs d (128 * idx + w.val) ≠ 0 := by
  intro h0
  rw [entryWord_scan] at h0
  simp only [stopsAt, h0, h2, and_self, decide_true] at h
  cases h

lemma EquallyFree.find? {idx n : ℕ} (h : EquallyFree bs d d' (128 * idx) (128 * (idx + (n + 1)))) :
    (List.finRange 128).find?
        (stopsAt (d (UInt32.ofNat (bs.reservedSectors.toNat + idx))) idx) =
      (List.finRange 128).find?
        (stopsAt (d' (UInt32.ofNat (bs.reservedSectors.toNat + idx))) idx) := by
  apply find?_finRange_congr
  intro w hfirst
  have hw := w.isLt
  by_cases h2 : 2 ≤ 128 * idx + w.val
  · have hiff := h (128 * idx + w.val) h2 (by omega) (by omega) fun q hq hlo hlt => by
      have hstop := hfirst ⟨q - 128 * idx, by omega⟩ (by rw [Fin.lt_def]; simp only; omega)
      have hq' := stopsAt_eq_false (by simp only; omega) hstop
      rwa [show 128 * idx + (q - 128 * idx) = q by omega] at hq'
    rw [entryWord_scan, entryWord_scan] at hiff
    simp only [stopsAt, hiff]
  · simp [stopsAt, h2]

lemma EquallyFree.tail {idx n : ℕ} (h : EquallyFree bs d d' (128 * idx) (128 * (idx + (n + 1))))
    (hnone : ∀ w, stopsAt (d (UInt32.ofNat (bs.reservedSectors.toNat + idx))) idx w = false) :
    EquallyFree bs d d' (128 * (idx + 1)) (128 * (idx + 1 + n)) := by
  intro p h2 hlo hhi hfirst
  refine h p h2 (by omega) (by omega) fun q hq hq' hlt => ?_
  rcases Nat.lt_or_ge q (128 * (idx + 1)) with hin | hout
  · have hq'' := stopsAt_eq_false (by simp only; omega) (hnone ⟨q - 128 * idx, by omega⟩)
    rwa [show 128 * idx + (q - 128 * idx) = q by omega] at hq''
  · exact hfirst q hq hout hlt

lemma findFreeFrom_congr (n idx : ℕ) (hidx : idx + n < 2 ^ 32)
    (h : EquallyFree bs d d' (128 * idx) (128 * (idx + n))) :
    (exec (findFreeFrom bs n idx) d).1 = (exec (findFreeFrom bs n idx) d').1 := by
  induction n generalizing idx with
  | zero => rfl
  | succ n ih =>
    rw [findFreeFrom]
    rcases hlba : add32 bs.fatStartSector (UInt32.ofNat idx) with _ | lba
    · rfl
    · have hlba' : lba = UInt32.ofNat (bs.reservedSectors.toNat + idx) := by
        rw [add32_eq_some, toNat_ofNat32 (by omega), BootSector.fatStartSector,
          UInt16.toNat_toUInt32] at hlba
        rw [hlba, UInt32.ofNat_toNat]
      subst hlba'
      simp only [ofOption_some, ret_bind, readSector, read_bind, exec_read,
        scanSector_find _ (by omega : idx < 2 ^ 32), ← h.find?]
      rcases hf : (List.finRange 128).find?
          (stopsAt (d (UInt32.ofNat (bs.reservedSectors.toNat + idx))) idx) with _ | w
      · -- nothing free in this sector on either disk
        rw [← Fin.find?_eq_find?_finRange, Fin.find?_eq_none_iff] at hf
        exact ih (idx + 1) (by omega) (h.tail hf)
      · rw [Option.elim_some]
        rcases clusterIndex (UInt32.ofNat idx) (UInt32.ofNat (4 * w.val)) with _ | c
        · rfl
        · rfl

lemma equallyFree_of_eq (hf : TableFits bs)
    (h : (exec (findFreeCluster bs) d).1 = (exec (findFreeCluster bs) d').1) :
    EquallyFree bs d d' 0 (entryCount bs) := by
  intro p h2 _ hp hfirst
  have hlt : p < 2 ^ 32 := by
    unfold TableFits at hf
    unfold entryCount at hp
    omega
  have hn : (UInt32.ofNat p).toNat = p := toNat_ofNat32 hlt
  have hrange : InRange bs (UInt32.ofNat p) := ⟨by omega, by omega⟩
  rw [entryWord_eq_fatWord hlt, entryWord_eq_fatWord hlt]
  rcases exec_findFreeCluster hf d with ⟨c, he, hc, h0, hleast⟩ | ⟨he, hnone⟩ <;>
    rcases exec_findFreeCluster hf d' with ⟨c', he', hc', h0', hleast'⟩ | ⟨he', hnone'⟩ <;>
    rw [he, he'] at h
  · obtain rfl : c = c' := by simpa using h
    -- no entry in front of `p` is free, so `p` is not behind the one found
    have hpc : p ≤ c.toNat := by
      by_contra hlt
      refine hfirst c.toNat hc.1 (by omega) (by omega) ?_
      rw [entryWord_eq_fatWord c.toNat_lt, UInt32.ofNat_toNat]
      exact h0
    rcases hpc.lt_or_eq with hpc | rfl
    · have hlt : UInt32.ofNat p < c := by rwa [UInt32.lt_iff_toNat_lt, hn]
      simp only [hleast _ hrange hlt, hleast' _ hrange hlt]
    · rw [UInt32.ofNat_toNat]
      simp only [h0, h0']
  · cases h
  · cases h
  · simp only [hnone _ hrange, hnone' _ hrange]

/-- **What the reserved bits decide.** On disks whose entries are equal but for these bits, the
walk has the same result exactly when at every cluster it passes the two entries are both end
marks or both not, and the search has the same result when the same entries are free up to the
first free one; on a table the search can number, only then. -/
theorem reserved_bits_seen (h : SameLinks d d') (bs : BootSector) :
    (∀ start : UInt32,
      (exec (followClusterChain bs start) d).1 = (exec (followClusterChain bs start) d').1 ↔
        ∀ c ∈ visited (fatNext (fatWord bs d)) maxIterations start,
          (endOfChain ≤ fatWord bs d c ↔ endOfChain ≤ fatWord bs d' c)) ∧
      (EquallyFree bs d d' 0 (entryCount bs) →
        (exec (findFreeCluster bs) d).1 = (exec (findFreeCluster bs) d').1) ∧
      (TableFits bs → (exec (findFreeCluster bs) d).1 = (exec (findFreeCluster bs) d').1 →
        EquallyFree bs d d' 0 (entryCount bs)) := by
  refine ⟨follow_eq_iff h bs, fun hfree => ?_, equallyFree_of_eq⟩
  refine findFreeFrom_congr _ 0 ?_ ?_
  · rw [Nat.zero_add]
    exact bs.sectorsPerFat32.toNat_lt
  · rwa [Nat.zero_add, Nat.mul_zero]

/-! ### A chain cut short and a free cluster passed over -/

lemma SameLinks.trans {d'' : Disk} (h : SameLinks d d') (h' : SameLinks d' d'') :
    SameLinks d d'' := fun lba w => (h lba w).trans (h' lba w)

lemma sameLinks_setEntry (hn : ¬ 1 < bs.numFats) {v : UInt32} (h : link (fatWord bs d c) = link v) :
    SameLinks d (setEntry bs d c v) := by
  intro lba w
  rw [setEntry, if_neg hn]
  by_cases hlba : lba = fatLba bs c
  · subst hlba
    rw [Function.update_self]
    by_cases hw : 4 * w.val = fatOffset c
    · simp only [hw, getWord_setWord_self]
      exact h
    · have := fatOffset_eq c
      rw [getWord_setWord_of_ne _ _ _ (by omega)]
  · rw [Function.update_of_ne hlba]

/-- Cluster 2 leads to cluster 4, cluster 3 is free. -/
def plainDisk : Disk := setEntry smallVolume (oneFree smallVolume 3) 2 4

/-- The same with reserved bits set in the entries of clusters 2 and 3. -/
def markedDisk : Disk :=
  setEntry smallVolume (setEntry smallVolume plainDisk 2 0xF0000004) 3 0xF0000000

lemma fatWord_plainDisk (hx : InRange smallVolume c) : fatWord smallVolume plainDisk c =
    if c = 2 then 4 else if c = 3 then 0 else endOfChain := by
  rw [plainDisk, fatWord_setEntry smallVolume_fits.tableFits hx.2, Function.update_apply,
    fatWord_oneFree smallVolume_fits.tableFits hx]

lemma fatWord_markedDisk (hx : InRange smallVolume c) : fatWord smallVolume markedDisk c =
    if c = 3 then 0xF0000000 else if c = 2 then 0xF0000004 else endOfChain := by
  rw [markedDisk, fatWord_setEntry smallVolume_fits.tableFits hx.2, Function.update_apply,
    fatWord_setEntry smallVolume_fits.tableFits hx.2, Function.update_apply, fatWord_plainDisk hx]
  split_ifs <;> rfl

lemma inRange_small :
    InRange smallVolume 2 ∧ InRange smallVolume 3 ∧ InRange smallVolume 4 := by
  unfold InRange entryCount
  decide

lemma sameButReserved_small : SameButReserved smallVolume plainDisk markedDisk := by
  obtain ⟨h2, h3, -⟩ := inRange_small
  constructor
  · refine (sameLinks_setEntry (c := 2) (by decide) ?_).trans
      (sameLinks_setEntry (c := 3) (by decide) ?_)
    · rw [fatWord_plainDisk h2]
      decide
    · rw [fatWord_setEntry smallVolume_fits.tableFits h3.2, Function.update_of_ne (by decide),
        fatWord_plainDisk h3]
      decide
  · intro lba h
    have hout := h.imp_right ((tables_le smallVolume).trans ·)
    rw [markedDisk, setEntry_of_outside smallVolume_fits.tableFits h3.2 (by decide) hout,
      setEntry_of_outside smallVolume_fits.tableFits h2.2 (by decide) hout]

/-- Reserved bits set in the end mark of cluster 4. -/
def endsDisk : Disk := setEntry smallVolume plainDisk 4 0xFFFFFFF8

lemma fatWord_endsDisk (hx : InRange smallVolume c) : fatWord smallVolume endsDisk c =
    if c = 4 then 0xFFFFFFF8 else if c = 2 then 4 else if c = 3 then 0 else endOfChain := by
  rw [endsDisk, fatWord_setEntry smallVolume_fits.tableFits hx.2, Function.update_apply,
    fatWord_plainDisk hx]

/-- The walk passes the entry that differs; it is an end mark on both disks. -/
theorem reserved_bits_seen_ends : SameLinks plainDisk endsDisk ∧
    fatWord smallVolume plainDisk 4 ≠ fatWord smallVolume endsDisk 4 ∧
    4 ∈ visited (fatNext (fatWord smallVolume plainDisk)) maxIterations 2 ∧
    (exec (followClusterChain smallVolume 2) plainDisk).1 =
      (exec (followClusterChain smallVolume 2) endsDisk).1 := by
  obtain ⟨h2, -, h4⟩ := inRange_small
  have h : SameLinks plainDisk endsDisk := by
    refine sameLinks_setEntry (by decide) ?_
    rw [fatWord_plainDisk h4]
    decide
  have hlink : fatNext (fatWord smallVolume plainDisk) 2 = some 4 := by
    rw [fatNext, fatWord_plainDisk h2]
    decide
  have hend : fatNext (fatWord smallVolume plainDisk) 4 = none := by
    rw [fatNext_eq_none, fatWord_plainDisk h4]
    decide
  have hvisited : visited (fatNext (fatWord smallVolume plainDisk)) maxIterations 2 = [2, 4] := by
    rw [maxIterations, visited, hlink, Option.elim_some, visited, hend, Option.elim_none]
  refine ⟨h, ?_, by simp [hvisited], ((reserved_bits_seen h smallVolume).1 2).mpr ?_⟩
  · rw [fatWord_plainDisk h4, fatWord_endsDisk h4]
    decide
  · rw [hvisited]
    simp only [List.forall_mem_cons, fatWord_plainDisk h2, fatWord_endsDisk h2,
      fatWord_plainDisk h4, fatWord_endsDisk h4]
    exact ⟨by decide, by decide, fun _ h => absurd h List.not_mem_nil⟩

/-- Reserved bits set in two entries cut the chain behind cluster 2 and leave no free cluster. -/
theorem reserved_bits_matter : ∃ (bs : BootSector) (d d' : Disk), SameButReserved bs d d' ∧
    (exec (followClusterChain bs 2) d).1 = .ok [2, 4] ∧
    (exec (followClusterChain bs 2) d').1 = .ok [2] ∧
    (exec (findFreeCluster bs) d).1 = .ok 3 ∧
    (exec (findFreeCluster bs) d').1 = .err .noFreeClusters := by
  obtain ⟨h2, h3, h4⟩ := inRange_small
  refine ⟨smallVolume, plainDisk, markedDisk, sameButReserved_small, ?_, ?_, ?_, ?_⟩
  · rw [exec_followClusterChain_ok]
    have hlink : fatNext (fatWord smallVolume plainDisk) 2 = some 4 := by
      rw [fatNext, fatWord_plainDisk h2]
      decide
    refine ⟨.cons hlink (.last ?_), by decide⟩
    rw [fatNext_eq_none, fatWord_plainDisk h4]
    decide
  · rw [exec_followClusterChain_ok]
    refine ⟨.last ?_, by decide⟩
    rw [fatNext_eq_none, fatWord_markedDisk h2]
    decide
  · rcases exec_findFreeCluster smallVolume_fits.tableFits plainDisk with
      ⟨c, he, hc, h0, -⟩ | ⟨-, hnone⟩
    · rw [he]
      rw [fatWord_plainDisk hc] at h0
      split_ifs at h0 with hc2 hc3
      · cases h0
      · rw [hc3]
      · cases h0
    · exact absurd (by rw [fatWord_plainDisk h3]; rfl) (hnone 3 h3)
  · rcases exec_findFreeCluster smallVolume_fits.tableFits markedDisk with
      ⟨c, he, hc, h0, -⟩ | ⟨he, -⟩
    · rw [fatWord_markedDisk hc] at h0
      split_ifs at h0 <;> cases h0
    · rw [he]

end RustyOs.FatReserved
