import RustyOs.FatAlloc

/-!
`set_fat_entry` as a lens on the table.

The method reads a sector of 512 bytes, stores one word in it, and writes the sector to both
copies of the table. On the map from clusters to words this sets one entry; what is set reads
back, the other entries and the sectors around the table stay, and the entries of two clusters
can be set in either order, whether their words share a sector or not.
-/

namespace RustyOs.FatLens

open RustyOs.Word32 RustyOs.BlockProg RustyOs.BlockProg.Prog
open RustyOs.Fat32 RustyOs.FatTable RustyOs.FatAlloc

variable {bs : BootSector} {d : Disk} {c c' v v' lba : UInt32}

/-- The sector is one of those `set_fat_entry` writes for the cluster. -/
def Writes (bs : BootSector) (c lba : UInt32) : Prop :=
  lba = fatLba bs c ∨ (1 < bs.numFats ∧ lba = backupLba bs c)

instance : Decidable (Writes bs c lba) := inferInstanceAs (Decidable (_ ∨ _))

lemma setEntry_apply : setEntry bs d c v lba =
    if Writes bs c lba then setWord (d (fatLba bs c)) (fatOffset c) v else d lba := by
  unfold setEntry Writes
  by_cases hn : 1 < bs.numFats
  · simp only [hn, if_true, true_and, Function.update_apply]
    split_ifs <;> simp_all
  · simp only [hn, if_false, false_and, or_false, Function.update_apply]

/-- Of the sectors written, only the first lies in the primary table. -/
lemma writes_fatLba (hf : TableFits bs) (hc' : c'.toNat < entryCount bs) :
    Writes bs c (fatLba bs c') ↔ fatLba bs c' = fatLba bs c := by
  refine or_iff_left fun hb => ?_
  exact backupLba_ne_fatLba hf c hc' hb.2

lemma backupLba_eq (h : fatLba bs c' = fatLba bs c) : backupLba bs c' = backupLba bs c := by
  have hdiv := congrArg UInt32.toNat h
  rw [toNat_fatLba, toNat_fatLba] at hdiv
  rw [backupLba, backupLba, Nat.add_left_cancel hdiv]

lemma not_writes (hf : TableFits bs) (hc : c.toNat < entryCount bs) (hc' : c'.toNat < entryCount bs)
    (hne : fatLba bs c' ≠ fatLba bs c) (h : Writes bs c lba) : ¬ Writes bs c' lba := by
  rintro (rfl | ⟨hn, rfl⟩)
  · exact hne ((writes_fatLba hf hc').mp h)
  · rcases h with h | ⟨-, h⟩
    · exact backupLba_ne_fatLba hf c' hc h.symm
    · have hdiv := congrArg UInt32.toNat h
      rw [toNat_backupLba hf, toNat_backupLba hf] at hdiv
      refine hne (UInt32.toNat_inj.mp ?_)
      rw [toNat_fatLba, toNat_fatLba]
      omega

lemma fatOffset_apart (hne : c' ≠ c) (h : fatLba bs c' = fatLba bs c) :
    fatOffset c' + 3 < fatOffset c ∨ fatOffset c + 3 < fatOffset c' := by
  have hdiv := congrArg UInt32.toNat h
  rw [toNat_fatLba, toNat_fatLba] at hdiv
  have hval : c'.toNat ≠ c.toNat := fun he => hne (UInt32.toNat_inj.mp he)
  unfold fatOffset
  omega

lemma setEntry_comm (hf : TableFits bs) (hc : c.toNat < entryCount bs)
    (hc' : c'.toNat < entryCount bs) (hne : c' ≠ c) :
    setEntry bs (setEntry bs d c v) c' v' = setEntry bs (setEntry bs d c' v') c v := by
  funext lba
  simp only [setEntry_apply, writes_fatLba hf hc, writes_fatLba hf hc']
  by_cases hsec : fatLba bs c' = fatLba bs c
  · -- both words are stored in the one sector
    have hw : Writes bs c' lba ↔ Writes bs c lba := by
      rw [Writes, Writes, hsec, backupLba_eq hsec]
    simp only [hw, hsec, if_true]
    split_ifs
    · exact setWord_comm _ v v' (fatOffset_apart hne hsec)
    · rfl
  · simp only [hsec, Ne.symm hsec, if_false]
    by_cases hw : Writes bs c lba
    · rw [if_neg (not_writes hf hc hc' hsec hw), if_pos hw, if_pos hw]
    · simp only [hw, if_false]

/-- **`set_fat_entry` is a lens.** The call returns; the entry of the cluster is then the value,
every other entry of the table and every sector around the tables is as before, and with a call
for another cluster it gives the same disk in either order. -/
theorem setFatEntry_lens (bs : BootSector) (hn : 1 ≤ bs.numFats.toNat)
    (hs : bs.sectorsPerFat32.toNat ≤ 2 ^ 21) (d : Disk) (c v : UInt32)
    (hc : c.toNat < 128 * bs.sectorsPerFat32.toNat) :
    ∃ d', exec (setFatEntry bs c v) d = (.ok (), d') ∧ fatWord bs d' c = v ∧
      (∀ x, x.toNat < 128 * bs.sectorsPerFat32.toNat → x ≠ c → fatWord bs d' x = fatWord bs d x) ∧
      (∀ lba, lba.toNat < bs.reservedSectors.toNat ∨
          bs.reservedSectors.toNat + min bs.numFats.toNat 2 * bs.sectorsPerFat32.toNat ≤
            lba.toNat → d' lba = d lba) ∧
      ∀ c' v', c'.toNat < 128 * bs.sectorsPerFat32.toNat → c' ≠ c →
        exec (setFatEntry bs c v >>= fun _ => setFatEntry bs c' v') d =
          exec (setFatEntry bs c' v' >>= fun _ => setFatEntry bs c v) d := by
  have hf : TableFits bs := by unfold TableFits; omega
  refine ⟨_, exec_setFatEntry hf d c v, ?_, fun x hx hxc => ?_, fun lba hlba => ?_,
    fun c' v' hc' hne => ?_⟩
  · rw [fatWord_setEntry hf hc, Function.update_self]
  · rw [fatWord_setEntry hf hx, Function.update_of_ne hxc]
  · exact setEntry_of_outside hf hc hn hlba
  · rw [exec_bind_ok (exec_setFatEntry hf d c v), exec_bind_ok (exec_setFatEntry hf d c' v'),
      exec_setFatEntry hf, exec_setFatEntry hf, setEntry_comm hf hc hc' hne]

/-- Two entries of the one sector of the table. -/
theorem setFatEntry_lens_small :
    ∃ d', exec (setFatEntry smallVolume 3 5) (fun _ => endMarks) = (.ok (), d') ∧
      fatWord smallVolume d' 3 = 5 ∧ fatWord smallVolume d' 4 = endOfChain ∧
      exec (setFatEntry smallVolume 3 5 >>= fun _ => setFatEntry smallVolume 4 7)
          (fun _ => endMarks) =
        exec (setFatEntry smallVolume 4 7 >>= fun _ => setFatEntry smallVolume 3 5)
          (fun _ => endMarks) := by
  obtain ⟨d', hd, hself, hother, -, hcomm⟩ := setFatEntry_lens smallVolume (by decide)
    (by decide) (fun _ => endMarks) 3 5 (by decide)
  refine ⟨d', hd, hself, ?_, hcomm 4 7 (by decide) (by decide)⟩
  rw [hother 4 (by decide) (by decide)]
  exact getWord_endMarks 4

end RustyOs.FatLens
