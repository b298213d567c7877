import RustyOs.CrashLogic
import RustyOs.FatDirectory

/-!
Files survive a power cut.

`create_file` writes the table and the data before the directory, and the directory in one
sector. Cut off anywhere before that last write, it has touched free clusters only, so the
directory lists what it listed and every file reads as before; the clusters it took are lost,
and the last of them may be linked to though its own entry is still zero. No later call of
`create_file` looks at such a chain, and so the files stay what they are through any sequence
of calls, finished, failed or cut off.
-/

namespace RustyOs.FatCrash

open RustyOs.Word32 RustyOs.BlockProg RustyOs.BlockProg.Prog RustyOs.Links RustyOs.Chunks
open RustyOs.CrashLogic RustyOs.Fat32 RustyOs.FatTable RustyOs.FatAlloc RustyOs.FatData
open RustyOs.FatCreate RustyOs.FatFrame RustyOs.FatRoundTrip RustyOs.FatDirectory
open RustyOs.Machine

variable {bs : BootSector} {d₀ d d' : Disk} {c x : UInt32}

/-! ### The methods that only read -/

lemma readOnly_readSector (s : Await) (lba : UInt32) : ReadOnly (readSector s lba) :=
  fun _ => trivial

lemma readOnly_followFrom (bs : BootSector) (n : ℕ) (c : UInt32) (acc : List UInt32) :
    ReadOnly (followFrom bs n c acc) := by
  induction n generalizing c acc with
  | zero => trivial
  | succ n ih =>
    rw [followFrom_succ]
    intro b
    dsimp only
    split_ifs
    · trivial
    · exact ih _ _

lemma readOnly_followClusterChain (bs : BootSector) (c : UInt32) :
    ReadOnly (followClusterChain bs c) := readOnly_followFrom bs _ c []

lemma readOnly_findFreeFrom (bs : BootSector) (n idx : ℕ) : ReadOnly (findFreeFrom bs n idx) := by
  induction n generalizing idx with
  | zero => trivial
  | succ n ih =>
    refine (readOnly_ofOption _).bind fun lba => (readOnly_readSector _ _).bind fun s =>
      (readOnly_ofOption _).bind fun o => ?_
    cases o with
    | some cluster => trivial
    | none => exact ih _

/-! ### What the writes of the chunk loop leave alone -/

/-- The clusters in use on `d₀` are on `d` what they were. -/
def Undisturbed (bs : BootSector) (d₀ d : Disk) : Prop :=
  ∀ x, InRange bs x → fatWord bs d₀ x ≠ 0 → Keeps bs d₀ d x

/-- A cluster that was free on `d₀`. -/
def Spare (bs : BootSector) (d₀ : Disk) (c : UInt32) : Prop :=
  InRange bs c ∧ fatWord bs d₀ c = 0

lemma Undisturbed.refl (bs : BootSector) (d : Disk) : Undisturbed bs d d :=
  fun _ _ _ => ⟨rfl, fun _ _ => rfl⟩

lemma Undisturbed.spare (h : Undisturbed bs d₀ d) (hc : InRange bs c)
    (h0 : fatWord bs d c = 0) : Spare bs d₀ c := by
  refine ⟨hc, ?_⟩
  by_contra hne
  exact hne ((h c hc hne).1 ▸ h0)

lemma Undisturbed.update (h : Undisturbed bs d₀ d) {lba : UInt32} {s : Sector}
    (hword : ∀ x, InRange bs x → fatWord bs d₀ x ≠ 0 →
      fatWord bs (Function.update d lba s) x = fatWord bs d x)
    (hsec : ∀ x, InRange bs x → fatWord bs d₀ x ≠ 0 → ∀ i < bs.sectorsPerCluster.toNat,
      sectorAt bs x i ≠ lba) : Undisturbed bs d₀ (Function.update d lba s) := by
  intro x hx hne
  refine (h x hx hne).trans ⟨hword x hx hne, fun i hi => ?_⟩
  exact Function.update_of_ne (hsec x hx hne i hi) s d

lemma Undisturbed.entryWrite (hv : VolumeFits bs) (h : Undisturbed bs d₀ d)
    (hc : Spare bs d₀ c) (v : UInt32) : Undisturbed bs d₀
      (Function.update d (fatLba bs c) (setWord (d (fatLba bs c)) (fatOffset c) v)) := by
  refine h.update (fun x hx hne => ?_) fun x hx hne i hi he => ?_
  · have hxc : x ≠ c := by
      rintro rfl
      exact hne hc.2
    rw [fatWord_update_fatLba, Function.update_of_ne hxc]
  · exact fatLba_ne_sectorAt hv hc.1.2 hx hi he.symm

lemma Undisturbed.backupWrite (hv : VolumeFits bs) (h : Undisturbed bs d₀ d)
    (hn : 1 < bs.numFats) (hc : InRange bs c) (s : Sector) :
    Undisturbed bs d₀ (Function.update d (backupLba bs c) s) := by
  refine h.update (fun x hx _ => ?_) fun x hx _ i hi he => ?_
  · exact fatWord_congr (Function.update_of_ne (backupLba_ne_fatLba hv.tableFits c hx.2) _ _)
  · exact backupLba_ne_sectorAt hv hn hc.2 hx hi he.symm

lemma Undisturbed.chunkWrite (hv : VolumeFits bs) (h : Undisturbed bs d₀ d)
    (hc : Spare bs d₀ c) (s : Sector) :
    Undisturbed bs d₀ (Function.update d (sectorAt bs c 0) s) := by
  refine h.update (fun x hx _ => ?_) fun x hx hne i hi he => ?_
  · exact fatWord_update_sectorAt hv hx.2 hc.1 hv.cluster s
  · obtain ⟨rfl, -⟩ := sectorAt_inj hv hx hc.1 hi hv.cluster he
    exact hne hc.2

/-! ### The triples of the chunk loop -/

lemma triple_setFatEntry (hv : VolumeFits bs) (hc : Spare bs d₀ c) (v : UInt32) :
    Triple (Undisturbed bs d₀) (setFatEntry bs c v) (fun _ => Undisturbed bs d₀)
      (Undisturbed bs d₀) := by
  rw [setFatEntry_eq hv.tableFits]
  refine .read (fun d h => h) fun b =>
    .write (R := Undisturbed bs d₀) (fun d h => h.1) (fun d h => ?_) ?_
  · rw [← h.2]
    exact h.1.entryWrite hv hc v
  · split_ifs with hn
    · exact .write (fun d h => h) (fun d h => h.backupWrite hv hn hc.1 _)
        (.ret (fun d h => h) fun d h => h)
    · exact .ret (fun d h => h) fun d h => h

lemma triple_findFreeCluster (hv : VolumeFits bs) (d₀ : Disk) :
    Triple (Undisturbed bs d₀) (findFreeCluster bs)
      (fun c d => Undisturbed bs d₀ d ∧ Spare bs d₀ c) (Undisturbed bs d₀) := by
  refine .of_readOnly (readOnly_findFreeFrom bs _ _) (fun d h => h) fun d c h hc => ⟨h, ?_⟩
  rcases exec_findFreeCluster hv.tableFits d with ⟨c', he, hr, h0, -⟩ | ⟨he, -⟩
  · rw [he] at hc
    obtain rfl : c' = c := by simpa using hc
    exact h.spare hr h0
  · rw [he] at hc
    cases hc

lemma triple_allocateCluster (hv : VolumeFits bs) {prev : Option UInt32}
    (hp : ∀ p ∈ prev, Spare bs d₀ p) :
    Triple (Undisturbed bs d₀) (allocateCluster bs prev none)
      (fun c d => Undisturbed bs d₀ d ∧ Spare bs d₀ c) (Undisturbed bs d₀) := by
  refine (triple_findFreeCluster hv d₀).bind fun c => ?_
  -- what the search has found out about `c` does not depend on the disk
  by_cases hc : Spare bs d₀ c
  · have hlink : Triple (fun d => Undisturbed bs d₀ d ∧ Spare bs d₀ c)
        (prev.forM fun p => setFatEntry bs p c) (fun _ => Undisturbed bs d₀)
        (Undisturbed bs d₀) := by
      cases prev with
      | none => exact .ret (fun d h => h.1) fun d h => h.1
      | some p => exact fun d h => triple_setFatEntry hv (hp p rfl) c d h.1
    exact hlink.bind fun _ => (triple_setFatEntry hv hc _).bind fun _ =>
      .ret (fun d h => ⟨h, hc⟩) fun d h => h
  · exact fun d h => (hc h.2).elim

lemma triple_writeChunks (hv : VolumeFits bs) (chunks : List (List UInt8))
    (cur first : Option UInt32) (hcur : ∀ p ∈ cur, Spare bs d₀ p) :
    Triple (Undisturbed bs d₀) (writeChunks bs chunks cur first)
      (fun _ => Undisturbed bs d₀) (Undisturbed bs d₀) := by
  induction chunks generalizing cur first with
  | nil => exact .ret (fun d h => h) fun d h => h
  | cons chunk chunks ih =>
    refine (triple_allocateCluster hv hcur).bind fun c => ?_
    by_cases hc : Spare bs d₀ c
    · rw [clusterToSector_eq hv hc.1]
      refine .write (R := Undisturbed bs d₀) (fun d h => h.1)
        (fun d h => h.1.chunkWrite hv hc _) (ih _ _ fun p hp => ?_)
      exact Option.some_inj.mp hp ▸ hc
    · exact fun d h => (hc h.2).elim

/-! ### The directory is written last -/

/-- The search of a cluster and what follows it: nothing has been written when it goes on, and
it stops with the write. -/
lemma commitsLast_tryOffsets {entry : Fin 32 → UInt8} {f : Bool → FatM Unit}
    (ht : f true = .ret ()) (hf : CommitsLast (f false) d) (s : UInt32) (is : List ℕ) :
    CommitsLast (tryOffsets entry s is >>= f) d := by
  induction is with
  | nil => exact hf
  | cons i is ih =>
    rw [tryOffsets]
    rcases add32 s (UInt32.ofNat i) with _ | lba
    · exact fun n => .inr rfl
    · simp only [ofOption_some, ret_bind, readSector, read_bind]
      refine .read ?_
      rcases freeSlot (d lba) with _ | k
      · exact ih
      · simp only [writeSector, write_bind, ret_bind, pure_eq, ht]
        exact .write _ _ _ _ d

lemma commitsLast_tryClusters (bs : BootSector) (entry : Fin 32 → UInt8) (cs : List UInt32)
    (d : Disk) : CommitsLast (tryClusters bs entry cs) d := by
  induction cs with
  | nil => exact .of_readOnly (p := tryClusters bs entry []) trivial d
  | cons c cs ih =>
    rw [tryClusters]
    cases bs.clusterToSector c with
    | none => exact fun n => .inr rfl
    | some s => exact commitsLast_tryOffsets rfl ih s _

lemma commitsLast_writeDirEntry (bs : BootSector) (dir : UInt32) (entry : Fin 32 → UInt8)
    (d : Disk) : CommitsLast (writeDirEntry bs dir entry) d :=
  .bind (readOnly_followClusterChain bs dir) fun cs => commitsLast_tryClusters bs entry cs d

lemma createFile_eq (hv : VolumeFits bs) (dir : UInt32) {name : List UInt8}
    (hname : name.length ≤ 12) (data : List UInt8) : createFile bs dir name data =
      writeChunks bs (chunksOf bs data) none none >>= fun first =>
        writeDirEntry bs dir (entryFor name data first) := by
  have hpos := hv.cluster
  rw [createFile, if_neg (by omega), chunks?, if_neg (by omega)]
  rfl

/-- **A call that is cut off before it returns** has left the clusters in use alone. -/
lemma createFile_cut (hv : VolumeFits bs) (dir : UInt32) (name data : List UInt8) (n : ℕ)
    (d : Disk) : (stop (createFile bs dir name data) n d).1 = some (.ok ()) ∨
      Undisturbed bs d (cut (createFile bs dir name data) n d) := by
  rcases Nat.lt_or_ge 12 name.length with hlong | hname
  · rw [createFile, if_pos hlong]
    exact .inr (.refl bs d)
  · rw [createFile_eq hv dir hname]
    have hloop := triple_writeChunks hv (chunksOf bs data) none none (by simp) d (.refl bs d)
    obtain ⟨m, ⟨-, h⟩ | ⟨first, d₁, he, h⟩⟩ := stop_bind
      (writeChunks bs (chunksOf bs data) none none)
      (fun first => writeDirEntry bs dir (entryFor name data first)) n d
    · rw [h]
      exact .inr (hloop.1 m)
    · rw [cut, h]
      rcases commitsLast_writeDirEntry bs dir (entryFor name data first) d₁ m with ⟨_, hr⟩ | hr
      · exact .inl hr
      · right
        rw [← cut, hr]
        exact hloop.2 first d₁ he

end RustyOs.FatCrash
