import RustyOs.FatCrash
import RustyOs.SectorTask

/-!
The methods of `Fat32` in a task, over the driver and under the executor. No other task uses the
driver.
-/

namespace RustyOs.FatTask

open RustyOs.Fat32 RustyOs.BlockProg RustyOs.BlockProg.Prog RustyOs.CrashLogic RustyOs.FatCrash
open RustyOs.Kernel RustyOs.SectorTask RustyOs.Word32 RustyOs.FatAlloc RustyOs.FatFrame

variable {bs : BootSector} {disk : Disk}

/-! ### Methods that store -/

lemma stores_tryOffsets {entry : Fin 32 → UInt8} {f : Bool → FatM Unit} (hf : Stores (f false))
    (s : UInt32) (is : List ℕ) : Stores (tryOffsets entry s is >>= f) := by
  induction is with
  | nil => exact hf
  | cons i is ih =>
    rw [tryOffsets]
    rcases add32 s (UInt32.ofNat i) with _ | lba
    · trivial
    · simp only [ofOption_some, ret_bind, readSector, read_bind]
      intro sector
      beta_reduce
      rcases freeSlot sector with _ | k
      · exact ih
      · trivial

lemma stores_tryClusters (bs : BootSector) (entry : Fin 32 → UInt8) (cs : List UInt32) :
    Stores (tryClusters bs entry cs) := by
  induction cs with
  | nil => trivial
  | cons c cs ih =>
    rw [tryClusters]
    cases bs.clusterToSector c with
    | none => trivial
    | some s => exact stores_tryOffsets ih s _

lemma stores_createFile (bs : BootSector) (dir : UInt32) (name data : List UInt8) :
    Stores (createFile bs dir name data) := by
  rw [createFile]
  split_ifs
  · trivial
  · exact .bind _ fun chunks => .bind _ fun first => .bind _ fun cs => stores_tryClusters bs _ cs

/-- **`create_file` does not return `Ok`.** Whatever the drive answers, a task that creates a file
while no other task uses the driver never gets past the first sector it writes, and the disk stays
as it was. Between two transfers no read is complete, and the handler takes the interrupt of a write
for that of a read. -/
theorem create_never_returns {n : ℕ} {dir : UInt32} {name data : List UInt8}
    {s : Kernel.State (Stage Await FatError Unit) Drive}
    (h : Runs sectorTask (fun _ => True) n (.run (createFile bs dir name data)) (.initial disk) s) :
    s.source.disk = disk ∧ s.stage ≠ .run (.ret ()) := by
  have hst := stands_of_reach (runs_inv h).2
  refine ⟨hst.disk_eq, fun hend => ?_⟩
  change Stands _ _ s.stage _ at hst
  rw [hend] at hst
  obtain ⟨hres, hwrites⟩ := hst.returned rfl
  exact (stores_createFile bs dir name data).writes_ne_nil hres.symm hwrites

theorem create_never_returns_small : ∃ s,
    Runs sectorTask (fun _ => True) 0 (.run (createFile smallVolume 2 [0x41] [7]))
        (.initial smallDisk) s ∧
      s.source.device.length = 1 ∧ s.source.disk = smallDisk ∧ s.stage ≠ .run (.ret ()) := by
  have h : Runs sectorTask (fun _ => True) 0 (.run (createFile smallVolume 2 [0x41] [7]))
      (.initial smallDisk) _ := runs_firstPoll _ _
  have h := Machine.Reach.step (e := Kernel.Event.act) h trivial rfl
  exact ⟨_, h, rfl, create_never_returns h⟩

end RustyOs.FatTask
