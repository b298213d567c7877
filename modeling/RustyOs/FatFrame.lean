import RustyOs.FatCreate

/-!
What `create_file` leaves alone, on success and on every failure.

A cluster in use keeps its entry and its sectors unless it belongs to the directory, so the
other files and directories read as before. A failed call takes nothing back: the clusters
it had taken stay allocated, in a chain no directory entry leads to.
-/

namespace RustyOs.FatFrame

open RustyOs.Word32 RustyOs.BlockProg RustyOs.BlockProg.Prog RustyOs.Links RustyOs.Chunks
open RustyOs.Fat32 RustyOs.FatTable RustyOs.FatAlloc RustyOs.FatData RustyOs.FatCreate

variable {bs : BootSector} {d d' : Disk} {c x : UInt32} {cs : List UInt32}

lemma used_of_path (h : Path (fatNext (fatWord bs d)) c cs) (hcs : ∀ x ∈ cs, InRange bs x) :
    ∀ x ∈ cs, fatWord bs d x ≠ 0 := by
  intro x hx h0
  have hn : fatNext (fatWord bs d) x = some 0 := by
    rw [fatNext_of_lt (by rw [h0]; decide), h0]
  exact (hcs 0 (h.next_mem hx hn)).ne_zero rfl

/-- The entry and the sectors of a cluster are what they were. -/
def Keeps (bs : BootSector) (d d' : Disk) (x : UInt32) : Prop :=
  fatWord bs d' x = fatWord bs d x ∧
    ∀ i < bs.sectorsPerCluster.toNat, d' (sectorAt bs x i) = d (sectorAt bs x i)

lemma Keeps.trans {d₁ : Disk} (h : Keeps bs d d₁ x) (h' : Keeps bs d₁ d' x) : Keeps bs d d' x :=
  ⟨h'.1.trans h.1, fun i hi => (h'.2 i hi).trans (h.2 i hi)⟩

lemma path_of_keeps (h : Path (fatNext (fatWord bs d)) c cs) (hk : ∀ x ∈ cs, Keeps bs d d' x) :
    Path (fatNext (fatWord bs d')) c cs :=
  h.congr fun x hx => fatNext_congr (hk x hx).1

lemma flatMap_of_keeps {γ : Type} (g : Sector → List γ) (hk : ∀ x ∈ cs, Keeps bs d d' x) :
    (chainSectors bs cs).flatMap (fun l => g (d' l)) =
      (chainSectors bs cs).flatMap (fun l => g (d l)) := by
  refine List.flatMap_congr fun l hl => ?_
  obtain ⟨x, hx, i, hi, rfl⟩ := mem_chainSectors.mp hl
  rw [(hk x hx).2 i hi]

lemma readFile_of_keeps (hv : VolumeFits bs) {e : DirEntry}
    (h : Path (fatNext (fatWord bs d)) e.firstCluster cs) (hlen : cs.length ≤ maxIterations)
    (hcs : ∀ x ∈ cs, InRange bs x) (hk : ∀ x ∈ cs, Keeps bs d d' x) :
    (exec (readFile bs e) d').1 = (exec (readFile bs e) d).1 := by
  rw [exec_readFile hv h hlen hcs, exec_readFile hv (path_of_keeps h hk) hlen hcs]
  exact congrArg (fun b => Res.ok (List.take _ b)) (flatMap_of_keeps List.ofFn hk)

lemma listDirectory_of_keeps (hv : VolumeFits bs) (h : Path (fatNext (fatWord bs d)) c cs)
    (hlen : cs.length ≤ maxIterations) (hcs : ∀ x ∈ cs, InRange bs x)
    (hk : ∀ x ∈ cs, Keeps bs d d' x) :
    (exec (listDirectory bs c) d').1 = (exec (listDirectory bs c) d).1 := by
  rw [exec_listDirectory hv h hlen hcs, exec_listDirectory hv (path_of_keeps h hk) hlen hcs]
  exact congrArg Res.ok (flatMap_of_keeps sectorEntries hk)

/-! ### What the two halves of `create_file` keep -/

lemma Wrote.keeps (hv : VolumeFits bs) {chunks : List (List UInt8)}
    (h : Wrote bs none cs chunks d d') (hx : InRange bs x) (hne : fatWord bs d x ≠ 0) :
    Keeps bs d d' x := by
  have hfree := h.free hv (by simp)
  have hxs : x ∉ cs := fun hm => hne (hfree x hm).2.1
  refine ⟨h.fatWord_other hv hx.2 hxs (by simp), fun i hi => ?_⟩
  refine h.sector_other hv (by simp) (fun y hy he => ?_) (.inr (sectorAt_outside hv hx hi))
  exact hxs ((sectorAt_inj hv hx (hfree y hy).1 hi hv.cluster he).1 ▸ hy)

lemma Wrote.keeps_path (hv : VolumeFits bs) {chunks : List (List UInt8)} {ds : List UInt32}
    (h : Wrote bs none cs chunks d d') (hd : Path (fatNext (fatWord bs d)) c ds)
    (hds : ∀ x ∈ ds, InRange bs x) : ∀ x ∈ ds, Keeps bs d d' x := fun x hx =>
  Wrote.keeps hv h (hds x hx) (used_of_path hd hds x hx)

lemma mem_of_firstFree {lbas : List UInt32} {l : UInt32} {k : Fin 16}
    (h : firstFree d lbas = some (l, k)) : l ∈ lbas ∧ freeSlot (d l) = some k := by
  obtain ⟨a, ha, hak⟩ := List.exists_of_findSome?_eq_some h
  obtain ⟨k', hk', he⟩ := Option.map_eq_some_iff.mp hak
  obtain ⟨rfl, rfl⟩ := Prod.mk.inj he
  exact ⟨ha, hk'⟩

lemma fatWord_putEntry (hv : VolumeFits bs) (hcs : ∀ y ∈ cs, InRange bs y) {l : UInt32}
    (hl : l ∈ chainSectors bs cs) (k : Fin 16) (entry : Fin 32 → UInt8)
    (hx : x.toNat < entryCount bs) : fatWord bs (putEntry d l k entry) x = fatWord bs d x := by
  obtain ⟨y, hy, j, hj, rfl⟩ := mem_chainSectors.mp hl
  exact fatWord_update_sectorAt hv hx (hcs y hy) hj _

lemma putEntry_keeps (hv : VolumeFits bs) (hcs : ∀ y ∈ cs, InRange bs y) {l : UInt32}
    (hl : l ∈ chainSectors bs cs) (k : Fin 16) (entry : Fin 32 → UInt8) (hx : InRange bs x)
    (hxs : x ∉ cs) : Keeps bs d (putEntry d l k entry) x := by
  refine ⟨fatWord_putEntry hv hcs hl k entry hx.2, fun i hi => ?_⟩
  obtain ⟨y, hy, j, hj, rfl⟩ := mem_chainSectors.mp hl
  refine Function.update_of_ne (fun he => ?_) _ _
  exact hxs ((sectorAt_inj hv hx (hcs y hy) hi hj he).1 ▸ hy)

lemma writeDirEntry_keeps (hv : VolumeFits bs) (h : Path (fatNext (fatWord bs d)) c cs)
    (hlen : cs.length ≤ maxIterations) (hcs : ∀ y ∈ cs, InRange bs y) (entry : Fin 32 → UInt8)
    (hx : InRange bs x) (hxs : x ∉ cs) :
    Keeps bs d (exec (writeDirEntry bs c entry) d).2 x := by
  rw [exec_writeDirEntry hv h hlen hcs]
  rcases hf : firstFree d (chainSectors bs cs) with _ | ⟨l, k⟩
  · exact ⟨rfl, fun _ _ => rfl⟩
  · exact putEntry_keeps hv hcs (mem_of_firstFree hf).1 k entry hx hxs

lemma createFile_ok (hv : VolumeFits bs) {dir : UInt32} {ds : List UInt32}
    (hd : (exec (followClusterChain bs dir) d).1 = .ok ds) (hds : ∀ x ∈ ds, InRange bs x)
    {name data : List UInt8} (hok : exec (createFile bs dir name data) d = (.ok (), d')) :
    ∃ cs d₁ lba j, Wrote bs none cs (chunksOf bs data) d d₁ ∧
      cs = (freeClusters bs d).take cs.length ∧ cs.length = (chunksOf bs data).length ∧
      lba ∈ chainSectors bs ds ∧ d' = putEntry d₁ lba j (entryFor name data cs.head?) := by
  obtain ⟨hdp, hdlen⟩ := (exec_followClusterChain_ok bs).mp hd
  rcases exec_createFile hv dir name data d with
    ⟨-, he⟩ | ⟨-, cs, d₁, hw, hfirst, ⟨he, -, -⟩ | ⟨he, hlen⟩⟩
  · rw [he] at hok
    cases hok
  · rw [he] at hok
    cases hok
  · have hdp₁ := path_of_keeps hdp (Wrote.keeps_path hv hw hdp hds)
    rw [he, exec_writeDirEntry hv hdp₁ hdlen hds] at hok
    rcases hf : firstFree d₁ (chainSectors bs ds) with _ | ⟨lba, j⟩
    · rw [hf] at hok
      cases hok
    · rw [hf] at hok
      exact ⟨cs, d₁, lba, j, hw, hfirst, hlen, (mem_of_firstFree hf).1, (Prod.mk.inj hok).2.symm⟩

lemma createFile_keeps (hv : VolumeFits bs) {dir : UInt32} {ds : List UInt32}
    (hd : Path (fatNext (fatWord bs d)) dir ds) (hlen : ds.length ≤ maxIterations)
    (hds : ∀ y ∈ ds, InRange bs y) (name data : List UInt8) (hx : InRange bs x)
    (hne : fatWord bs d x ≠ 0) (hxs : x ∉ ds) :
    Keeps bs d (exec (createFile bs dir name data) d).2 x := by
  rcases exec_createFile hv dir name data d with ⟨-, he⟩ | ⟨-, cs, d₁, hw, -, ⟨he, -, -⟩ | ⟨he, -⟩⟩
  · rw [he]
    exact ⟨rfl, fun _ _ => rfl⟩
  · rw [he]
    exact Wrote.keeps hv hw hx hne
  · rw [he]
    have hd₁ := path_of_keeps hd (Wrote.keeps_path hv hw hd hds)
    exact (Wrote.keeps hv hw hx hne).trans (writeDirEntry_keeps hv hd₁ hlen hds _ hx hxs)

/-- **Creating a file disturbs no other file or directory.** Whatever the call returns, a
file or directory whose chain is in range and apart from the chain of the directory reads
as before. -/
theorem createFile_keeps_others (hv : VolumeFits bs) {e : DirEntry} {dir : UInt32}
    {es ds : List UInt32} (he : (exec (followClusterChain bs e.firstCluster) d).1 = .ok es)
    (hes : ∀ x ∈ es, InRange bs x) (hd : (exec (followClusterChain bs dir) d).1 = .ok ds)
    (hds : ∀ x ∈ ds, InRange bs x) (hdisj : ∀ x ∈ es, x ∉ ds) (name data : List UInt8) :
    (exec (readFile bs e) (exec (createFile bs dir name data) d).2).1 =
        (exec (readFile bs e) d).1 ∧
      (exec (listDirectory bs e.firstCluster) (exec (createFile bs dir name data) d).2).1 =
        (exec (listDirectory bs e.firstCluster) d).1 := by
  obtain ⟨hep, helen⟩ := (exec_followClusterChain_ok bs).mp he
  obtain ⟨hdp, hdlen⟩ := (exec_followClusterChain_ok bs).mp hd
  have hk : ∀ x ∈ es, Keeps bs d (exec (createFile bs dir name data) d).2 x := fun x hx =>
    createFile_keeps hv hdp hdlen hds name data (hes x hx) (used_of_path hep hes x hx)
      (hdisj x hx)
  exact ⟨readFile_of_keeps hv hep helen hes hk, listDirectory_of_keeps hv hep helen hes hk⟩

/-- On this disk cluster 2 is an empty directory, cluster 3 is free, and all other clusters are
files of one cluster. -/
def smallDisk : Disk := Function.update (oneFree smallVolume 3) 2 fun _ => 0

lemma smallVolume_fits : VolumeFits smallVolume := by
  refine ⟨?_, ?_, ?_⟩ <;> decide

lemma smallDisk_dir : (exec (followClusterChain smallVolume 2) smallDisk).1 = .ok [2] := by
  decide +kernel

lemma smallDisk_dir_inRange : ∀ x ∈ [(2 : UInt32)], InRange smallVolume x := by
  simp only [List.forall_mem_singleton, InRange, entryCount]
  decide

lemma smallDisk_file : (exec (followClusterChain smallVolume 4) smallDisk).1 = .ok [4] := by
  decide +kernel

lemma smallDisk_file_inRange : ∀ x ∈ [(4 : UInt32)], InRange smallVolume x := by
  simp only [List.forall_mem_singleton, InRange, entryCount]
  decide

theorem createFile_keeps_others_small :
    (exec (createFile smallVolume 2 [0x41] [7]) smallDisk).1 = .ok () ∧
      (exec (readFile smallVolume ⟨fun _ => 0x42, 0x20, 4, 100⟩)
          (exec (createFile smallVolume 2 [0x41] [7]) smallDisk).2).1 =
        (exec (readFile smallVolume ⟨fun _ => 0x42, 0x20, 4, 100⟩) smallDisk).1 := by
  exact ⟨by decide +kernel, (createFile_keeps_others (e := ⟨fun _ => 0x42, 0x20, 4, 100⟩)
    smallVolume_fits smallDisk_file smallDisk_file_inRange smallDisk_dir smallDisk_dir_inRange
    (by simp) [0x41] [7]).1⟩

/-! ### A call that fails -/

/-- The entry of a cluster in copy `k` of the table. -/
def copyWord (bs : BootSector) (d : Disk) (k : ℕ) (c : UInt32) : UInt32 :=
  getWord (d (UInt32.ofNat (bs.reservedSectors.toNat + k * bs.sectorsPerFat32.toNat
    + c.toNat / 128))) (fatOffset c) (fatOffset_lt c)

/-- Every entry of every copy of the table is what it was. -/
def TableIntact (bs : BootSector) (d d' : Disk) : Prop :=
  ∀ k < bs.numFats.toNat, ∀ c : UInt32, c.toNat < entryCount bs →
    copyWord bs d' k c = copyWord bs d k c

lemma TableIntact.fatWord (hv : VolumeFits bs) (h : TableIntact bs d d')
    (hx : x.toNat < entryCount bs) : fatWord bs d' x = fatWord bs d x := by
  have h0 := h 0 (by have := hv.table; omega) x hx
  unfold copyWord at h0
  rw [Nat.zero_mul, Nat.add_zero] at h0
  exact h0

lemma chunksOf_eq_nil {data : List UInt8} : chunksOf bs data = [] ↔ data = [] := by
  constructor
  · intro h
    by_contra hne
    exact chunksUpTo_ne_nil hne h
  · rintro rfl
    rfl

lemma createFile_err (hv : VolumeFits bs) {dir : UInt32} {name data : List UInt8} {e : FatError}
    (h : exec (createFile bs dir name data) d = (.err e, d')) :
    (12 < name.length ∧ d' = d) ∨ (name.length ≤ 12 ∧
      ∃ cs, Wrote bs none cs (chunksOf bs data) d d' ∧
        (cs.length = (chunksOf bs data).length ∨ ∀ x, InRange bs x → fatWord bs d' x ≠ 0)) := by
  rcases exec_createFile hv dir name data d with
    ⟨hl, he⟩ | ⟨hn, cs, d₁, hw, -, ⟨he, -, hnone⟩ | ⟨he, hlen⟩⟩
  · rw [he] at h
    exact .inl ⟨hl, (Prod.mk.inj h).2.symm⟩
  · rw [he] at h
    obtain rfl := (Prod.mk.inj h).2
    exact .inr ⟨hn, cs, hw, .inr hnone⟩
  · rw [he] at h
    obtain rfl := writeDirEntry_err h
    exact .inr ⟨hn, cs, hw, .inl hlen⟩

/-- **What a failed call does to the table.** The clusters it took, all of them free before,
stay allocated as one chain, and every other entry of the primary table keeps its value. All
copies of the table are intact exactly when the name was too long, there was no data, or no
cluster was free. -/
theorem failed_createFile_table (hv : VolumeFits bs) {dir : UInt32} {name data : List UInt8}
    {e : FatError} (h : exec (createFile bs dir name data) d = (.err e, d')) :
    (∃ cs : List UInt32, (∀ x ∈ cs, InRange bs x ∧ fatWord bs d x = 0) ∧
        (∀ x ∈ cs.head?, Path (fatNext (fatWord bs d')) x cs) ∧
        ∀ x : UInt32, x.toNat < entryCount bs → x ∉ cs → fatWord bs d' x = fatWord bs d x) ∧
      (TableIntact bs d d' ↔
        12 < name.length ∨ data = [] ∨ ∀ x, InRange bs x → fatWord bs d x ≠ 0) := by
  rcases createFile_err hv h with ⟨hlong, rfl⟩ | ⟨hname, cs, hw, hend⟩
  · exact ⟨⟨[], by simp, by simp, fun _ _ _ => rfl⟩, fun _ => .inl hlong, fun _ _ _ _ _ => rfl⟩
  · have hfree := hw.free hv (by simp)
    refine ⟨⟨cs, fun x hx => ⟨(hfree x hx).1, (hfree x hx).2.1⟩, fun x hx => ?_,
      fun x hx hxs => hw.fatWord_other hv hx hxs (by simp)⟩, fun hint => ?_, fun hcond => ?_⟩
    · cases cs with
      | nil => cases hx
      | cons c cs =>
        obtain rfl := Option.some_inj.mp hx
        exact hw.path hv
    · -- a cluster taken would show in the primary table
      cases cs with
      | cons c cs =>
        have hc := hfree c (by simp)
        have := hint.fatWord hv hc.1.2
        exact absurd (this.trans hc.2.1) (hw.taken hv c (by simp))
      | nil =>
        cases hw
        rcases hend with hlen | hnone
        · have : chunksOf bs data = [] := List.length_eq_zero_iff.mp hlen.symm
          exact .inr (.inl (chunksOf_eq_nil.mp this))
        · exact .inr (.inr hnone)
    · have hcs : cs = [] := by
        rcases hcond with hlong | rfl | hnone
        · omega
        · rw [chunksOf_eq_nil.mpr rfl] at hw
          cases hw
          rfl
        · cases cs with
          | nil => rfl
          | cons c cs => exact absurd (hfree c (by simp)).2.1 (hnone c (hfree c (by simp)).1)
      subst hcs
      cases hw
      exact fun _ _ _ _ => rfl

/-- The call has taken cluster 3 when it finds no other. -/
theorem failed_createFile_table_small : ∃ d',
    exec (createFile smallVolume 2 [0x41] (List.replicate 513 7)) smallDisk =
        (.err .noFreeClusters, d') ∧ ¬ TableIntact smallVolume smallDisk d' ∧
      ∃ cs : List UInt32, 3 ∈ cs ∧
        (∀ x ∈ cs, InRange smallVolume x ∧ fatWord smallVolume smallDisk x = 0) ∧
        (∀ x ∈ cs.head?, Path (fatNext (fatWord smallVolume d')) x cs) ∧
        ∀ x : UInt32, x.toNat < entryCount smallVolume → x ∉ cs →
          fatWord smallVolume d' x = fatWord smallVolume smallDisk x := by
  have herr : (exec (createFile smallVolume 2 [0x41] (List.replicate 513 7)) smallDisk).1 =
      .err .noFreeClusters := by decide +kernel
  have hthree : InRange smallVolume 3 := by
    simp only [InRange, entryCount]
    decide
  obtain ⟨⟨cs, hfree, hpath, hother⟩, hiff⟩ :=
    failed_createFile_table smallVolume_fits (exec_of_fst herr)
  refine ⟨_, exec_of_fst herr, fun hint => ?_, cs, ?_, hfree, hpath, hother⟩
  · rcases hiff.mp hint with hlong | hempty | hused
    · exact absurd hlong (by decide)
    · exact absurd hempty (by decide)
    · exact hused 3 hthree (by decide +kernel)
  · by_contra hnot
    exact absurd (hother 3 hthree.2 hnot) (by decide +kernel)

/-- The first of two chunks gets the only free cluster and the second gets none; the call
fails with the cluster marked as used. -/
theorem failed_createFile_leaks : ∃ (bs : BootSector) (d d' : Disk) (dir : UInt32)
    (name data : List UInt8) (e : FatError), VolumeFits bs ∧
      (∃ ds, (exec (followClusterChain bs dir) d).1 = .ok ds ∧ ∀ x ∈ ds, InRange bs x) ∧
      exec (createFile bs dir name data) d = (.err e, d') ∧ ¬ TableIntact bs d d' := by
  have herr : (exec (createFile smallVolume 2 [0x41] (List.replicate 513 7)) smallDisk).1 =
      .err .noFreeClusters := by decide +kernel
  refine ⟨smallVolume, smallDisk, _, 2, [0x41], List.replicate 513 7, .noFreeClusters,
    smallVolume_fits, ⟨[2], smallDisk_dir, smallDisk_dir_inRange⟩, exec_of_fst herr, fun h => ?_⟩
  have h3 := h 0 (by decide) 3 (by decide)
  exact absurd h3 (by decide +kernel)

end RustyOs.FatFrame
