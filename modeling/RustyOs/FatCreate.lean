import RustyOs.FatAlloc
import RustyOs.FatData

/-!
What `create_file` does to the disk.

The loop over the chunks takes one free cluster after the other and links each behind the
last, so at every moment the clusters taken so far form one chain, ending with the newest,
and each holds its chunk. Nothing that was in use before is touched: a cluster in use has a
non-zero entry and is never found free.
-/

namespace RustyOs.FatCreate

open RustyOs.Word32 RustyOs.BlockProg RustyOs.BlockProg.Prog RustyOs.Links RustyOs.Chunks
open RustyOs.Fat32 RustyOs.FatTable RustyOs.FatAlloc RustyOs.FatData

variable {bs : BootSector} {d d' : Disk} {c x : UInt32}

/-- The disk after one turn of the loop that took cluster `c`. -/
def chunkDisk (bs : BootSector) (d : Disk) (cur : Option UInt32) (c : UInt32)
    (chunk : List UInt8) : Disk :=
  Function.update (allocDisk bs d cur none c) (sectorAt bs c 0) (fill 0 chunk)

/-- The loop, entered with the cluster `cur` to link from, took the clusters `cs`, each free at
its turn, for the first chunks of `chunks` and made `d` into `d'`. -/
inductive Wrote (bs : BootSector) :
    Option UInt32 → List UInt32 → List (List UInt8) → Disk → Disk → Prop
  | stop {cur : Option UInt32} {chunks : List (List UInt8)} {d : Disk} :
      Wrote bs cur [] chunks d d
  | take {cur : Option UInt32} {c : UInt32} {cs : List UInt32} {chunk : List UInt8}
      {chunks : List (List UInt8)} {d d' : Disk} (hc : InRange bs c) (h0 : fatWord bs d c = 0)
      (t : Wrote bs (some c) cs chunks (chunkDisk bs d cur c chunk) d') :
      Wrote bs cur (c :: cs) (chunk :: chunks) d d'

variable {cur : Option UInt32} {cs : List UInt32} {chunks : List (List UInt8)}

/-! ### The table after a turn -/

lemma fatWord_chunkDisk (hv : VolumeFits bs) (hc : InRange bs c) {chunk : List UInt8}
    (hx : x.toNat < entryCount bs) :
    fatWord bs (chunkDisk bs d cur c chunk) x = allocWord (fatWord bs d) cur none c x := by
  rw [chunkDisk, fatWord_update_sectorAt hv hx hc hv.cluster, fatWord_allocDisk hv.tableFits hx]

lemma fatWord_chunkDisk_other (hv : VolumeFits bs) (hc : InRange bs c) {chunk : List UInt8}
    (hx : x.toNat < entryCount bs) (hxc : x ≠ c) (hcur : x ∉ cur) :
    fatWord bs (chunkDisk bs d cur c chunk) x = fatWord bs d x := by
  rw [fatWord_chunkDisk hv hc hx, allocWord, Function.update_of_ne hxc]
  cases cur with
  | none => rfl
  | some p =>
    have hxp : x ≠ p := by
      rintro rfl
      exact hcur rfl
    exact Function.update_of_ne hxp _ _

lemma fatWord_chunkDisk_new (hv : VolumeFits bs) (hc : InRange bs c) (d : Disk)
    (cur : Option UInt32) (chunk : List UInt8) :
    fatWord bs (chunkDisk bs d cur c chunk) c = endOfChain := by
  rw [fatWord_chunkDisk hv hc hc.2, allocWord, Function.update_self]
  rfl

lemma chunkDisk_new_used (hv : VolumeFits bs) (hc : InRange bs c) (d : Disk)
    (cur : Option UInt32) (chunk : List UInt8) :
    ∀ p ∈ some c, fatWord bs (chunkDisk bs d cur c chunk) p ≠ 0 := by
  intro p hp
  rw [← Option.some_inj.mp hp, fatWord_chunkDisk_new hv hc]
  decide

lemma fatWord_chunkDisk_prev (hv : VolumeFits bs) (hc : InRange bs c) {chunk : List UInt8}
    (hx : x.toNat < entryCount bs) (hxc : x ≠ c) :
    fatWord bs (chunkDisk bs d (some x) c chunk) x = c := by
  rw [fatWord_chunkDisk hv hc hx, allocWord, Function.update_of_ne hxc, Option.elim_some,
    Function.update_self]

lemma zero_of_chunkDisk (hv : VolumeFits bs) (hc : InRange bs c) {chunk : List UInt8}
    (hx : x.toNat < entryCount bs) (h : fatWord bs (chunkDisk bs d cur c chunk) x = 0) :
    x ≠ c ∧ x ∉ cur ∧ fatWord bs d x = 0 := by
  have hxc : x ≠ c := by
    rintro rfl
    rw [fatWord_chunkDisk_new hv hc] at h
    exact absurd h (by decide)
  have hcur : x ∉ cur := by
    rintro rfl
    rw [fatWord_chunkDisk_prev hv hc hx hxc] at h
    exact hc.ne_zero h
  exact ⟨hxc, hcur, by rwa [fatWord_chunkDisk_other hv hc hx hxc hcur] at h⟩

/-! ### The clusters the loop takes -/

/-- The clusters whose entries are zero, in ascending order. -/
def freeClusters (bs : BootSector) (d : Disk) : List UInt32 :=
  ((List.range (entryCount bs)).map UInt32.ofNat).filter fun c =>
    2 ≤ c.toNat ∧ fatWord bs d c = 0

lemma filter_eq_cons {l : List UInt32} (hl : l.Pairwise (· < ·)) {p q : UInt32 → Bool}
    (hc : c ∈ l) (hp : p c = true) (hleast : ∀ x ∈ l, x < c → p x = false)
    (hq : ∀ x ∈ l, q x = true ↔ x ≠ c ∧ p x = true) : l.filter p = c :: l.filter q := by
  obtain ⟨l₁, l₂, rfl⟩ := List.append_of_mem hc
  obtain ⟨-, h₂, hlt⟩ := List.pairwise_append.mp hl
  have hbelow : ∀ x ∈ l₁, p x = false := fun x hx =>
    hleast x (List.mem_append_left _ hx) (hlt x hx c List.mem_cons_self)
  have hnone : l₁.filter p = [] := List.filter_eq_nil_iff.mpr fun x hx => by simp [hbelow x hx]
  have hnone' : l₁.filter q = [] := by
    refine List.filter_eq_nil_iff.mpr fun x hx hqx => ?_
    have := ((hq x (List.mem_append_left _ hx)).mp hqx).2
    rw [hbelow x hx] at this
    cases this
  have hqc : ¬ q c = true := fun h => ((hq c hc).mp h).1 rfl
  have hrest : l₂.filter p = l₂.filter q := by
    refine List.filter_congr fun x hx => ?_
    have hne : x ≠ c := (UInt32.ne_of_lt ((List.pairwise_cons.mp h₂).1 x hx)).symm
    rw [Bool.eq_iff_iff, hq x (List.mem_append_right _ (List.mem_cons_of_mem c hx))]
    exact ⟨fun h => ⟨hne, h⟩, fun h => h.2⟩
  rw [List.filter_append, List.filter_append, hnone, hnone', List.nil_append, List.nil_append,
    List.filter_cons_of_pos hp, List.filter_cons_of_neg hqc, hrest]

lemma entryCount_le (hf : TableFits bs) : entryCount bs ≤ 2 ^ 30 := by
  unfold TableFits at hf
  unfold entryCount
  omega

lemma pairwise_clusters (hf : TableFits bs) :
    ((List.range (entryCount bs)).map UInt32.ofNat).Pairwise (· < ·) := by
  have hcount := entryCount_le hf
  refine List.pairwise_map.mpr (List.pairwise_lt_range.imp_of_mem fun ha hb hlt => ?_)
  rw [List.mem_range] at ha hb
  rw [UInt32.lt_iff_toNat_lt, toNat_ofNat32 (by omega), toNat_ofNat32 (by omega)]
  exact hlt

lemma mem_clusters (hc : c.toNat < entryCount bs) :
    c ∈ (List.range (entryCount bs)).map UInt32.ofNat :=
  List.mem_map.mpr ⟨c.toNat, List.mem_range.mpr hc, UInt32.ofNat_toNat⟩

lemma lt_of_mem_clusters (hf : TableFits bs) {c : UInt32}
    (hc : c ∈ (List.range (entryCount bs)).map UInt32.ofNat) : c.toNat < entryCount bs := by
  obtain ⟨n, hn, rfl⟩ := List.mem_map.mp hc
  rw [List.mem_range] at hn
  have hcount := entryCount_le hf
  rwa [toNat_ofNat32 (by omega)]

lemma freeClusters_chunkDisk (hv : VolumeFits bs) (hc : InRange bs c) (h0 : fatWord bs d c = 0)
    (hleast : ∀ c', InRange bs c' → c' < c → fatWord bs d c' ≠ 0)
    (hcur : ∀ p ∈ cur, fatWord bs d p ≠ 0) (chunk : List UInt8) :
    freeClusters bs d = c :: freeClusters bs (chunkDisk bs d cur c chunk) := by
  refine filter_eq_cons (pairwise_clusters hv.tableFits) (mem_clusters hc.2)
    (decide_eq_true ⟨hc.1, h0⟩) (fun x hx hlt => ?_) fun x hx => ?_
  · refine decide_eq_false fun h => hleast x ⟨h.1, ?_⟩ hlt h.2
    exact lt_of_mem_clusters hv.tableFits hx
  · have hlt := lt_of_mem_clusters hv.tableFits hx
    simp only [decide_eq_true_eq]
    constructor
    · rintro ⟨h2, hzero⟩
      obtain ⟨hne, -, hbefore⟩ := zero_of_chunkDisk hv hc hlt hzero
      exact ⟨hne, h2, hbefore⟩
    · rintro ⟨hne, h2, hzero⟩
      refine ⟨h2, ?_⟩
      rw [fatWord_chunkDisk_other hv hc hlt hne fun hm => hcur x hm hzero]
      exact hzero

lemma exec_writeChunks (hv : VolumeFits bs) (chunks : List (List UInt8)) (cur first : Option UInt32)
    (d : Disk) (hcur : ∀ p ∈ cur, fatWord bs d p ≠ 0) : ∃ cs d', Wrote bs cur cs chunks d d' ∧
      cs = (freeClusters bs d).take cs.length ∧
      ((exec (writeChunks bs chunks cur first) d = (.ok (first <|> cs.head?), d') ∧
          cs.length = chunks.length) ∨
        (exec (writeChunks bs chunks cur first) d = (.err .noFreeClusters, d') ∧
          cs.length < chunks.length ∧ ∀ x, InRange bs x → fatWord bs d' x ≠ 0)) := by
  induction chunks generalizing cur first d with
  | nil =>
    refine ⟨[], d, .stop, rfl, .inl ⟨?_, rfl⟩⟩
    cases first <;> rfl
  | cons chunk chunks ih =>
    rcases exec_allocateCluster hv.tableFits d cur none with
      ⟨c, he, hc, h0, hleast⟩ | ⟨he, hnone⟩
    · obtain ⟨cs, d', hw, hcs, hr⟩ := ih (some c) (first <|> some c) (chunkDisk bs d cur c chunk)
        (chunkDisk_new_used hv hc d cur chunk)
      have hstep : exec (writeChunks bs (chunk :: chunks) cur first) d =
          exec (writeChunks bs chunks (some c) (first <|> some c))
            (chunkDisk bs d cur c chunk) := by
        rw [writeChunks, exec_bind_ok he, clusterToSector_eq hv hc]
        rfl
      refine ⟨c :: cs, d', .take hc h0 hw, ?_, ?_⟩
      · rw [freeClusters_chunkDisk hv hc h0 hleast hcur chunk, List.length_cons,
          List.take_succ_cons, ← hcs]
      rw [hstep]
      rcases hr with ⟨hok, hlen⟩ | ⟨herr, hlen, hnone⟩
      · refine .inl ⟨?_, by simp [hlen]⟩
        rw [hok]
        cases first <;> simp
      · exact .inr ⟨herr, by simp [hlen], hnone⟩
    · refine ⟨[], d, .stop, rfl, .inr ⟨?_, by simp, hnone⟩⟩
      rw [writeChunks, exec_bind_err he]

/-! ### The table after the loop -/

lemma Wrote.free (hv : VolumeFits bs) (h : Wrote bs cur cs chunks d d')
    (hcur : ∀ p ∈ cur, fatWord bs d p ≠ 0) :
    ∀ x ∈ cs, InRange bs x ∧ fatWord bs d x = 0 ∧ x ∉ cur := by
  induction h with
  | stop => simp
  | @take cur c cs chunk chunks d d' hc h0 _ ih =>
    intro x hx
    rcases List.mem_cons.mp hx with rfl | hx'
    · exact ⟨hc, h0, fun hm => hcur x hm h0⟩
    · obtain ⟨hr, hz, -⟩ := ih (chunkDisk_new_used hv hc d cur chunk) x hx'
      obtain ⟨-, h2, h3⟩ := zero_of_chunkDisk hv hc hr.2 hz
      exact ⟨hr, h3, h2⟩

lemma Wrote.nodup (hv : VolumeFits bs) (h : Wrote bs cur cs chunks d d') : cs.Nodup := by
  induction h with
  | stop => simp
  | @take cur c cs chunk chunks d d' hc h0 t ih =>
    refine List.nodup_cons.mpr ⟨fun hm => ?_, ih⟩
    exact (t.free hv (chunkDisk_new_used hv hc d cur chunk) c hm).2.2 rfl

lemma Wrote.fatWord_other (hv : VolumeFits bs) (h : Wrote bs cur cs chunks d d')
    (hx : x.toNat < entryCount bs) (hxs : x ∉ cs) (hcur : x ∉ cur) :
    fatWord bs d' x = fatWord bs d x := by
  induction h with
  | stop => rfl
  | @take cur c cs chunk chunks d d' hc h0 t ih =>
    simp only [List.mem_cons, not_or] at hxs
    rw [ih hxs.2 (by simpa using Ne.symm hxs.1), fatWord_chunkDisk_other hv hc hx hxs.1 hcur]

lemma Wrote.fatWord_cur (hv : VolumeFits bs) (h : Wrote bs (some x) cs chunks d d')
    (hx : InRange bs x) (h0 : fatWord bs d x ≠ 0) :
    fatWord bs d' x = cs.head?.getD (fatWord bs d x) := by
  have hcur : ∀ p ∈ some x, fatWord bs d p ≠ 0 := by
    intro p hp; rwa [← Option.some_inj.mp hp]
  have hnot : x ∉ cs := fun hm => (h.free hv hcur x hm).2.2 rfl
  cases h with
  | stop => rfl
  | @take _ c cs chunk chunks d d' hc _ t =>
    simp only [List.mem_cons, not_or] at hnot
    rw [t.fatWord_other hv hx.2 hnot.2 (by simpa using Ne.symm hnot.1),
      fatWord_chunkDisk_prev hv hc hx.2 hnot.1]
    rfl

/-- **The clusters taken form a chain**, in the order they were taken. -/
lemma Wrote.path (hv : VolumeFits bs) (h : Wrote bs cur (c :: cs) chunks d d') :
    Path (fatNext (fatWord bs d')) c (c :: cs) := by
  induction cs generalizing cur c chunks d with
  | nil =>
    cases h with
    | take hc h0 t =>
      cases t with
      | stop =>
        exact .last (by rw [fatNext, fatWord_chunkDisk_new hv hc, if_pos (UInt32.le_refl _)])
  | cons c' cs ih =>
    cases h with
    | @take _ _ _ chunk _ _ _ hc h0 t =>
      have hword : fatWord bs d' c = c' :=
        t.fatWord_cur hv hc (chunkDisk_new_used hv hc d cur chunk c rfl)
      have hc' : InRange bs c' := by cases t with | take hc' => exact hc'
      refine .cons ?_ (ih t)
      rw [fatNext_of_lt (by rw [hword]; exact hv.lt_endOfChain hc'), hword]

lemma Wrote.taken (hv : VolumeFits bs) (h : Wrote bs cur cs chunks d d') :
    ∀ x ∈ cs, fatWord bs d' x ≠ 0 := by
  induction h with
  | stop => simp
  | @take cur c cs chunk chunks d d' hc h0 t ih =>
    intro x hx
    rcases List.mem_cons.mp hx with rfl | hx'
    · rw [t.fatWord_cur hv hc (chunkDisk_new_used hv hc d cur chunk x rfl),
        fatWord_chunkDisk_new hv hc]
      cases t with
      | stop => exact (by decide : endOfChain ≠ 0)
      | take hc' => exact hc'.ne_zero
    · exact ih x hx'

/-! ### The sectors after the loop -/

lemma chunkDisk_other (hv : VolumeFits bs) (hc : InRange bs c) {chunk : List UInt8}
    (hcur : ∀ p ∈ cur, InRange bs p) {lba : UInt32} (hne : lba ≠ sectorAt bs c 0)
    (hout : lba.toNat < bs.reservedSectors.toNat ∨
      bs.reservedSectors.toNat + tableSectors bs ≤ lba.toNat) :
    chunkDisk bs d cur c chunk lba = d lba := by
  rw [chunkDisk, Function.update_of_ne hne,
    allocDisk_of_outside hv.tableFits hv.table hc hcur hout]

lemma Wrote.sector_other (hv : VolumeFits bs) (h : Wrote bs cur cs chunks d d')
    (hcur : ∀ p ∈ cur, InRange bs p) {lba : UInt32} (hne : ∀ x ∈ cs, lba ≠ sectorAt bs x 0)
    (hout : lba.toNat < bs.reservedSectors.toNat ∨
      bs.reservedSectors.toNat + tableSectors bs ≤ lba.toNat) : d' lba = d lba := by
  induction h with
  | stop => rfl
  | @take cur c cs chunk chunks d d' hc h0 t ih =>
    rw [ih (fun p hp => Option.some_inj.mp hp ▸ hc) fun x hx => hne x (by simp [hx]),
      chunkDisk_other hv hc hcur (hne c (by simp)) hout]

lemma Wrote.data (hv : VolumeFits bs) (h : Wrote bs cur cs chunks d d') :
    cs.map (fun x => d' (sectorAt bs x 0)) = (chunks.take cs.length).map (fill 0) := by
  induction h with
  | stop => simp
  | @take cur c cs chunk chunks d d' hc h0 t ih =>
    have hall : Wrote bs cur (c :: cs) (chunk :: chunks) d d' := .take hc h0 t
    have hnew := chunkDisk_new_used hv hc d cur chunk
    have hkeep : d' (sectorAt bs c 0) = chunkDisk bs d cur c chunk (sectorAt bs c 0) := by
      refine t.sector_other hv (fun p hp => Option.some_inj.mp hp ▸ hc) (fun x hx he => ?_)
        (.inr (sectorAt_outside hv hc hv.cluster))
      have hr := (t.free hv hnew x hx).1
      have hcx := (sectorAt_inj hv hc hr hv.cluster hv.cluster he).1
      exact (List.nodup_cons.mp (hall.nodup hv)).1 (hcx ▸ hx)
    rw [List.map_cons, hkeep, ih, chunkDisk, Function.update_self]
    rfl

/-! ### The whole method -/

/-- The chunks `create_file` cuts the data into. -/
def chunksOf (bs : BootSector) (data : List UInt8) : List (List UInt8) :=
  chunksUpTo (512 * bs.sectorsPerCluster.toNat) data.length data

/-- The directory entry `create_file` writes when the file starts at `first`. -/
def entryFor (name data : List UInt8) (first : Option UInt32) : Fin 32 → UInt8 :=
  createDirEntry name (first.getD 0) (UInt32.ofNat data.length)

/-- `create_file` refuses the name, runs out of clusters, or goes on to the directory. -/
lemma exec_createFile (hv : VolumeFits bs) (dir : UInt32) (name data : List UInt8) (d : Disk) :
    (12 < name.length ∧ exec (createFile bs dir name data) d = (.err .filenameTooLong, d)) ∨
      (name.length ≤ 12 ∧ ∃ cs d₁, Wrote bs none cs (chunksOf bs data) d d₁ ∧
        cs = (freeClusters bs d).take cs.length ∧
        ((exec (createFile bs dir name data) d = (.err .noFreeClusters, d₁) ∧
            cs.length < (chunksOf bs data).length ∧ ∀ x, InRange bs x → fatWord bs d₁ x ≠ 0) ∨
          (exec (createFile bs dir name data) d =
              exec (writeDirEntry bs dir (entryFor name data cs.head?)) d₁ ∧
            cs.length = (chunksOf bs data).length))) := by
  rcases Nat.lt_or_ge 12 name.length with hlong | hname
  · exact .inl ⟨hlong, by rw [createFile, if_pos hlong, exec_raise]⟩
  · obtain ⟨cs, d₁, hw, hcs, hr⟩ :=
      exec_writeChunks hv (chunksOf bs data) none none d (by simp)
    have hpos := hv.cluster
    have hstart : exec (createFile bs dir name data) d =
        exec (writeChunks bs (chunksOf bs data) none none >>= fun first =>
          writeDirEntry bs dir (entryFor name data first)) d := by
      rw [createFile, if_neg (by omega), chunks?, if_neg (by omega)]
      rfl
    refine .inr ⟨hname, cs, d₁, hw, hcs, ?_⟩
    rw [hstart]
    rcases hr with ⟨hok, hlen⟩ | ⟨herr, hlen, hnone⟩
    · refine .inr ⟨?_, hlen⟩
      rw [exec_bind_ok hok]
      rfl
    · exact .inl ⟨exec_bind_err herr _, hlen, hnone⟩

/-! ### A directory that takes no entry -/

lemma tryOffsets_outcome (entry : Fin 32 → UInt8) (s : UInt32) (is : List ℕ) (d : Disk) :
    (exec (tryOffsets entry s is) d).1 = .ok true ∨ (exec (tryOffsets entry s is) d).2 = d := by
  induction is with
  | nil => exact .inr rfl
  | cons i is ih =>
    rw [tryOffsets]
    rcases add32 s (UInt32.ofNat i) with _ | lba
    · exact .inr rfl
    · simp only [ofOption_some, ret_bind, readSector, read_bind, exec_read]
      rcases freeSlot (d lba) with _ | k
      · exact ih
      · exact .inl rfl

lemma tryClusters_err {entry : Fin 32 → UInt8} {cs : List UInt32} {e : FatError}
    (h : exec (tryClusters bs entry cs) d = (.err e, d')) : d' = d := by
  induction cs with
  | nil => exact (Prod.mk.inj h).2.symm
  | cons c cs ih =>
    rw [tryClusters] at h
    rcases hs : bs.clusterToSector c with _ | s
    · rw [hs] at h
      cases h
    · rw [hs, ofOption_some, ret_bind] at h
      have hout := tryOffsets_outcome entry s (List.range bs.sectorsPerCluster.toNat) d
      rcases hr : exec (tryOffsets entry s (List.range bs.sectorsPerCluster.toNat)) d with ⟨r, d₁⟩
      rw [hr] at hout
      cases r with
      | ok b =>
        rw [exec_bind_ok hr] at h
        cases b with
        | true => cases h
        | false =>
          have hd : d₁ = d := hout.resolve_left (by simp)
          subst hd
          exact ih h
      | err e' =>
        rw [exec_bind_err hr] at h
        exact (Prod.mk.inj h).2.symm.trans (hout.resolve_left (by simp))
      | panic =>
        rw [exec_bind_panic hr] at h
        cases h

lemma writeDirEntry_err {dir : UInt32} {entry : Fin 32 → UInt8} {e : FatError}
    (h : exec (writeDirEntry bs dir entry) d = (.err e, d')) : d' = d := by
  rw [writeDirEntry, exec_bind, exec_followClusterChain] at h
  rcases hw : walk (fatNext (fatWord bs d)) maxIterations dir with _ | cs
  · rw [hw] at h
    exact (Prod.mk.inj h).2.symm
  · rw [hw] at h
    exact tryClusters_err h

end RustyOs.FatCreate
