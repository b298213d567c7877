import RustyOs.FatCrash
import RustyOs.Snapshot

/-!
Reading beside a call of `create_file`.

Another task may list the directory or read a file between any two transfers of the call. The
sectors of the table that the reader meets do change, but not the entries it looks at; and the
directory changes in one sector, once.
-/

namespace RustyOs.FatSnapshot

open RustyOs.Word32 RustyOs.BlockProg RustyOs.BlockProg.Prog RustyOs.Links RustyOs.CrashLogic
open RustyOs.Snapshot RustyOs.Fat32 RustyOs.FatTable RustyOs.FatAlloc RustyOs.FatData
open RustyOs.FatCreate RustyOs.FatFrame RustyOs.FatRoundTrip RustyOs.FatDirectory
open RustyOs.FatCrash RustyOs.Machine

variable {bs : BootSector} {d d' : Disk} {dir c : UInt32} {cs ds : List UInt32}
  {I : Disk → Prop}

/-! ### The loops as scans -/

section loops

variable {β : Type} {s : Await} {f : β → Sector → β}

lemma forOffsets_eq_scan (hv : VolumeFits bs) (hc : InRange bs c) {is : List ℕ}
    (his : ∀ i ∈ is, i < bs.sectorsPerCluster.toNat) (acc : β) :
    forOffsets s f (sectorAt bs c 0) is acc = scan s f (is.map (sectorAt bs c)) acc := by
  induction is generalizing acc with
  | nil => rfl
  | cons i is ih =>
    rw [forOffsets, add_sectorAt hv hc (his i List.mem_cons_self)]
    simp only [ofOption_some, ret_bind, readSector, read_bind, List.map_cons, scan,
      ih fun j hj => his j (List.mem_cons_of_mem _ hj)]

lemma forClusters_eq_scan (hv : VolumeFits bs) (hcs : ∀ c ∈ cs, InRange bs c) (acc : β) :
    forClusters bs s f cs acc = scan s f (chainSectors bs cs) acc := by
  induction cs generalizing acc with
  | nil => rfl
  | cons c cs ih =>
    have hc := hcs c List.mem_cons_self
    rw [forClusters, clusterToSector_eq hv hc, ofOption_some, ret_bind,
      forOffsets_eq_scan hv hc fun i hi => List.mem_range.mp hi, chainSectors_cons, scan_append]
    simp only [ih fun x hx => hcs x (List.mem_cons_of_mem _ hx)]

end loops

lemma answers_followFrom {n : ℕ} (h : Path (fatNext (fatWord bs d)) c cs)
    (hlen : cs.length ≤ n) (hI : ∀ d', I d' → ∀ x ∈ cs, fatWord bs d' x = fatWord bs d x)
    (acc : List UInt32) : Answers I (.ok (acc ++ cs)) (followFrom bs n c acc) := by
  induction n generalizing c cs acc with
  | zero =>
    obtain ⟨l, rfl⟩ := h.eq_cons
    simp at hlen
  | succ n ih =>
    rw [followFrom_succ]
    intro d' hd'
    change Answers I (.ok (acc ++ cs)) (if endOfChain ≤ fatWord bs d' c then .ret (acc ++ [c])
      else followFrom bs n (fatWord bs d' c) (acc ++ [c]))
    rw [hI d' hd' c h.mem_self]
    cases h with
    | last hn =>
      rw [if_pos (fatNext_eq_none.mp hn)]
      rfl
    | @cons _ c' l hn hl =>
      obtain ⟨hword, hlt⟩ := fatNext_eq_some.mp hn
      rw [if_neg (UInt32.not_le.mpr hlt), hword, List.append_cons]
      exact ih hl (by simpa using hlen)
        (fun d' hd' x hx => hI d' hd' x (List.mem_cons_of_mem _ hx)) _

lemma answers_followClusterChain (h : Path (fatNext (fatWord bs d)) c cs)
    (hlen : cs.length ≤ maxIterations)
    (hI : ∀ d', I d' → ∀ x ∈ cs, fatWord bs d' x = fatWord bs d x) :
    Answers I (.ok cs) (followClusterChain bs c) := by
  have hfollow := answers_followFrom h hlen hI []
  rwa [List.nil_append] at hfollow

/-! ### The two states of affairs -/

/-- Until the call returns the clusters in use are undisturbed; then the disk is the one the
call leaves when it has the disk for itself. -/
lemma turns_createFile (hv : VolumeFits bs) (dir : UInt32) (name data : List UInt8) (d : Disk) :
    Turns (Undisturbed bs d) (fun d' => exec (createFile bs dir name data) d = (.ok (), d'))
      (createFile bs dir name data) d := by
  intro n
  rcases createFile_cut hv dir name data n d with hok | hu
  · exact .inl ⟨⟨(), hok⟩, exec_of_stop hok⟩
  · exact .inr hu

lemma keeps_of_turned (hv : VolumeFits bs) (hd : DirAt bs dir ds d) {name data : List UInt8}
    (h : exec (createFile bs dir name data) d = (.ok (), d')) {x : UInt32} (hx : InRange bs x)
    (hne : fatWord bs d x ≠ 0) (hxs : x ∉ ds) : Keeps bs d d' x := by
  have hk := createFile_keeps hv hd.path hd.length hd.inRange name data hx hne hxs
  rwa [h] at hk

lemma undisturbed_of_failed (hv : VolumeFits bs) {name data : List UInt8}
    (h : (exec (createFile bs dir name data) d).1 ≠ .ok ()) :
    Undisturbed bs d (exec (createFile bs dir name data) d).2 := by
  obtain ⟨n, hn⟩ := exists_stop (createFile bs dir name data) d
  have hcut := createFile_cut hv dir name data n d
  rw [cut, hn] at hcut
  exact hcut.resolve_left fun he => h (Option.some.inj he)

lemma dir_after (hv : VolumeFits bs) (hd : DirAt bs dir ds d) (name data : List UInt8) :
    (∀ x ∈ ds, fatWord bs (exec (createFile bs dir name data) d).2 x = fatWord bs d x) ∧
      ∃ l, ∀ a ∈ chainSectors bs ds, a ≠ l →
        (exec (createFile bs dir name data) d).2 a = d a := by
  by_cases hok : (exec (createFile bs dir name data) d).1 = .ok ()
  · have hfollow : (exec (followClusterChain bs dir) d).1 = .ok ds :=
      (exec_followClusterChain_ok bs).mpr ⟨hd.path, hd.length⟩
    obtain ⟨cs, d₁, l, k, hw, -, -, hl, hd'⟩ :=
      createFile_ok hv hfollow hd.inRange (exec_of_fst hok)
    have hk := Wrote.keeps_path hv hw hd.path hd.inRange
    rw [hd']
    refine ⟨fun x hx => ?_, l, fun a ha hne => ?_⟩
    · rw [fatWord_putEntry hv hd.inRange hl k _ (hd.inRange x hx).2, (hk x hx).1]
    · obtain ⟨x, hx, i, hi, rfl⟩ := mem_chainSectors.mp ha
      rw [putEntry, Function.update_of_ne hne, (hk x hx).2 i hi]
  · have hk : ∀ x ∈ ds, Keeps bs d (exec (createFile bs dir name data) d).2 x := fun x hx =>
      undisturbed_of_failed hv hok x (hd.inRange x hx) (used_of_path hd.path hd.inRange x hx)
    refine ⟨fun x hx => (hk x hx).1, 0, fun a ha _ => ?_⟩
    obtain ⟨x, hx, i, hi, rfl⟩ := mem_chainSectors.mp ha
    exact (hk x hx).2 i hi

lemma DirAt.exec_collected (hv : VolumeFits bs) (hd : DirAt bs dir ds d) :
    (exec (listDirectory bs dir) d).1 =
      .ok (collected (fun l s => l ++ sectorEntries s) d (chainSectors bs ds) []) := by
  rw [exec_listDirectory hv hd.path hd.length hd.inRange, collected, foldl_append_flatMap]
  rfl

/-! ### Listing and reading beside the call -/

/-- **The directory is listed as it was or as it will be**, in whatever order the transfers of
`list_directory` and of a call of `create_file` on the same directory are made. -/
theorem list_beside_create (hv : VolumeFits bs)
    (hd : (exec (followClusterChain bs dir) d).1 = .ok ds) (hds : ∀ x ∈ ds, InRange bs x)
    (name data : List UInt8) {s : Beside Await UInt32 Sector FatError Unit (List DirEntry)}
    (h : Reach Beside.step (fun _ _ => True)
      ⟨createFile bs dir name data, listDirectory bs dir, d⟩ s)
    {r : Res FatError (List DirEntry)} (hr : s.reader.result? = some r) :
    r = (exec (listDirectory bs dir) d).1 ∨
      r = (exec (listDirectory bs dir) (exec (createFile bs dir name data) d).2).1 := by
  have hdir := DirAt.of_follow hd hds
  obtain ⟨hwords, l, hsec⟩ := dir_after hv hdir name data
  have hu : ∀ d', Undisturbed bs d d' → ∀ x ∈ ds, Keeps bs d d' x := fun d' h x hx =>
    h x (hds x hx) (used_of_path hdir.path hds x hx)
  have hdir' : DirAt bs dir ds (exec (createFile bs dir name data) d).2 :=
    ⟨hdir.path.congr fun x hx => fatNext_congr (hwords x hx), hdir.length, hds⟩
  refine Beside.reader_result (turns_createFile hv dir name data d) ?_ h hr
  rw [DirAt.exec_collected hv hdir, DirAt.exec_collected hv hdir']
  refine Sees.bind (answers_followClusterChain hdir.path hdir.length fun d' hd' x hx => ?_) ?_
  · rcases hd' with hI | hJ
    · exact (hu d' hI x hx).1
    · rw [hJ] at hwords
      exact hwords x hx
  · rw [forClusters_eq_scan hv hds]
    refine sees_scan (nodup_chainSectors hv hds hdir.path.nodup) (fun d' hI a ha => ?_)
      (fun d' hJ a _ => ?_) hsec fun _ => rfl
    · obtain ⟨x, hx, i, hi, rfl⟩ := mem_chainSectors.mp ha
      exact (hu d' hI x hx).2 i hi
    · rw [hJ]

/-- The transfers of a reader of two sectors beside those of the call: its first read comes when
the table has been written, its second when the entry has been. -/
def between : List Bool := [false, false, false, true, false, false, false, false, true]

theorem list_beside_create_between :
    ∃ s : Beside Await UInt32 Sector FatError Unit (List DirEntry),
      between.foldlM Beside.step
        ⟨createFile smallVolume 2 [0x41] [7], listDirectory smallVolume 2, smallDisk⟩ = some s ∧
      ∃ r, s.reader.result? = some r ∧ r ≠ (exec (listDirectory smallVolume 2) smallDisk).1 ∧
        r = (exec (listDirectory smallVolume 2)
          (exec (createFile smallVolume 2 [0x41] [7]) smallDisk).2).1 := by
  have hends : ((between.foldlM Beside.step
      ⟨createFile smallVolume 2 [0x41] [7], listDirectory smallVolume 2, smallDisk⟩).bind
        fun s => s.reader.result?).isSome = true := by decide +kernel
  have hold : (between.foldlM Beside.step
      ⟨createFile smallVolume 2 [0x41] [7], listDirectory smallVolume 2, smallDisk⟩).bind
        (fun s => s.reader.result?) ≠
          some (exec (listDirectory smallVolume 2) smallDisk).1 := by decide +kernel
  obtain ⟨r, hr⟩ := Option.isSome_iff_exists.mp hends
  have hne : r ≠ (exec (listDirectory smallVolume 2) smallDisk).1 := fun heq =>
    hold (hr.trans (congrArg some heq))
  obtain ⟨s, hs, hr⟩ := Option.bind_eq_some_iff.mp hr
  exact ⟨s, hs, r, hr, hne, (list_beside_create smallVolume_fits smallDisk_dir
    smallDisk_dir_inRange [0x41] [7] (.of_foldlM (fun _ _ => trivial) hs) hr).resolve_left hne⟩

/-- **A file reads as before** while another task creates a file in a directory its chain has no
cluster of. -/
theorem read_beside_create (hv : VolumeFits bs)
    (hd : (exec (followClusterChain bs dir) d).1 = .ok ds) (hds : ∀ x ∈ ds, InRange bs x)
    {e : DirEntry} {es : List UInt32}
    (he : (exec (followClusterChain bs e.firstCluster) d).1 = .ok es)
    (hes : ∀ x ∈ es, InRange bs x ∧ x ∉ ds) (name data : List UInt8)
    {s : Beside Await UInt32 Sector FatError Unit (List UInt8)}
    (h : Reach Beside.step (fun _ _ => True) ⟨createFile bs dir name data, readFile bs e, d⟩ s)
    {r : Res FatError (List UInt8)} (hr : s.reader.result? = some r) :
    r = (exec (readFile bs e) d).1 := by
  have hdir := DirAt.of_follow hd hds
  obtain ⟨hpath, hlen⟩ := (exec_followClusterChain_ok bs).mp he
  have hin : ∀ x ∈ es, InRange bs x := fun x hx => (hes x hx).1
  have hkeep : ∀ d', (Undisturbed bs d d' ∨ exec (createFile bs dir name data) d = (.ok (), d')) →
      ∀ x ∈ es, Keeps bs d d' x := by
    intro d' hd' x hx
    have hne := used_of_path hpath hin x hx
    rcases hd' with hI | hJ
    · exact hI x (hin x hx) hne
    · exact keeps_of_turned hv hdir hJ (hin x hx) hne (hes x hx).2
  have hread : (exec (readFile bs e) d).1 = .ok ((collected (fun l s => l ++ List.ofFn s) d
      (chainSectors bs es) []).take e.fileSize.toNat) := by
    rw [exec_readFile hv hpath hlen hin, collected, foldl_append_flatMap]
    rfl
  refine or_self_iff.mp
    (Beside.reader_result (turns_createFile hv dir name data d) (.of_answers ?_) h hr)
  rw [hread]
  refine (answers_followClusterChain hpath hlen fun d' hd' x hx => (hkeep d' hd' x hx).1).bind ?_
  rw [forClusters_eq_scan hv hin]
  refine (answers_scan fun d' hd' a ha => ?_).bind rfl
  obtain ⟨x, hx, i, hi, rfl⟩ := mem_chainSectors.mp ha
  exact (hkeep d' hd' x hx).2 i hi

theorem read_beside_create_between :
    ∃ s : Beside Await UInt32 Sector FatError Unit (List UInt8),
      between.foldlM Beside.step ⟨createFile smallVolume 2 [0x41] [7],
        readFile smallVolume ⟨fun _ => 0x42, 0x20, 4, 100⟩, smallDisk⟩ = some s ∧
      s.reader.result? =
        some (exec (readFile smallVolume ⟨fun _ => 0x42, 0x20, 4, 100⟩) smallDisk).1 := by
  have hends : ((between.foldlM Beside.step ⟨createFile smallVolume 2 [0x41] [7],
      readFile smallVolume ⟨fun _ => 0x42, 0x20, 4, 100⟩, smallDisk⟩).bind
        fun s => s.reader.result?).isSome = true := by decide +kernel
  obtain ⟨r, hr⟩ := Option.isSome_iff_exists.mp hends
  obtain ⟨s, hs, hr⟩ := Option.bind_eq_some_iff.mp hr
  have hes : ∀ x ∈ [(4 : UInt32)], InRange smallVolume x ∧ x ∉ [(2 : UInt32)] := fun x hx =>
    ⟨smallDisk_file_inRange x hx, by simp [List.mem_singleton.mp hx]⟩
  have h := read_beside_create (e := ⟨fun _ => 0x42, 0x20, 4, 100⟩) smallVolume_fits smallDisk_dir
    smallDisk_dir_inRange smallDisk_file hes [0x41] [7] (.of_foldlM (fun _ _ => trivial) hs) hr
  exact ⟨s, hs, hr.trans (congrArg some h)⟩

end RustyOs.FatSnapshot
