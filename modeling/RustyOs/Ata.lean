import Mathlib

/-!
The ATA driver (`src/ata.rs`): its statics, the commands it gives to the drive, the futures
that wait for them, and the interrupt handler.

The drive takes commands into a queue and answers the oldest one with an interrupt. A future
looks twice for its result when it is polled, with the registration of its waker in between;
an interrupt may come between the two looks, so here each look is an event of its own.
-/

namespace RustyOs.Ata

abbrev Sector := Fin 512 → UInt8

/-- What goes through the data port for one sector. -/
abbrev Words := Fin 256 → UInt16

/-- The loop of the handler that sends a buffer. -/
def toWords (s : Sector) : Words := fun i =>
  (s ⟨i.val * 2, by omega⟩).toUInt16 ||| ((s ⟨i.val * 2 + 1, by omega⟩).toUInt16 <<< 8)

/-- The loop of the handler that receives a buffer. -/
def ofWords (w : Words) : Sector := fun j =>
  if j.val % 2 = 0 then (w ⟨j.val / 2, by omega⟩ &&& 0xFF).toUInt8
  else (w ⟨j.val / 2, by omega⟩ >>> 8).toUInt8

lemma toNat_pack (a b : UInt8) :
    (a.toUInt16 ||| (b.toUInt16 <<< 8)).toNat = a.toNat + 2 ^ 8 * b.toNat := by
  have ha := a.toNat_lt
  have hb := b.toNat_lt
  have hshift : (b.toUInt16 <<< 8).toNat = b.toNat <<< 8 := by
    rw [UInt16.toNat_shiftLeft]
    change (b.toNat <<< 8) % 2 ^ 16 = _
    exact Nat.mod_eq_of_lt (by rw [Nat.shiftLeft_eq]; omega)
  rw [UInt16.toNat_or, hshift, UInt8.toNat_toUInt16, Nat.or_comm,
    ← Nat.shiftLeft_add_eq_or_of_lt ha, Nat.shiftLeft_eq]
  omega

/-- **A sector comes back from its words.** -/
theorem ofWords_toWords (s : Sector) : ofWords (toWords s) = s := by
  funext j
  have hj := j.isLt
  unfold ofWords
  split_ifs with h
  · have hidx : (⟨j.val / 2 * 2, by omega⟩ : Fin 512) = j := Fin.ext (by simp only; omega)
    apply UInt8.toNat_inj.mp
    rw [UInt16.toNat_toUInt8, UInt16.toNat_and, toWords, toNat_pack, hidx]
    change ((_ &&& (2 ^ 8 - 1)) % 2 ^ 8) = _
    have := (s j).toNat_lt
    rw [Nat.and_two_pow_sub_one_eq_mod]
    omega
  · have hidx : (⟨j.val / 2 * 2 + 1, by omega⟩ : Fin 512) = j := Fin.ext (by simp only; omega)
    apply UInt8.toNat_inj.mp
    rw [UInt16.toNat_toUInt8, UInt16.toNat_shiftRight, toWords, toNat_pack, hidx]
    change ((_ >>> 8) % 2 ^ 8) = _
    have h1 := (s j).toNat_lt
    generalize s ⟨_, _⟩ = b
    have h0 := b.toNat_lt
    rw [Nat.shiftRight_eq_div_pow]
    omega

/-! ### Commands -/

def deviceSlave : UInt8 := 0xB0

/-- The registers a command is given in. -/
structure Registers where
  sectorCount : UInt8
  lbaLow : UInt8
  lbaMid : UInt8
  lbaHigh : UInt8
  device : UInt8
  deriving DecidableEq

/-- The values the driver writes to the registers. -/
def setRegisters (lba : UInt32) : Registers :=
  { sectorCount := 1
    lbaLow := (lba &&& 0xFF).toUInt8
    lbaMid := ((lba >>> 8) &&& 0xFF).toUInt8
    lbaHigh := ((lba >>> 16) &&& 0xFF).toUInt8
    device := deviceSlave ||| (0x40 : UInt8) ||| ((lba >>> 24) &&& 0x0F).toUInt8 }

/-- The sector the drive finds in the registers: 24 bits and the low four of the device
register. -/
def Registers.lba (r : Registers) : UInt32 :=
  UInt32.ofNat (r.lbaLow.toNat + 2 ^ 8 * r.lbaMid.toNat + 2 ^ 16 * r.lbaHigh.toNat +
    2 ^ 24 * (r.device.toNat % 16))

inductive Code
  | readSectors
  | writeSectors
  deriving DecidableEq

structure Command where
  code : Code
  registers : Registers
  deriving DecidableEq

/-! ### The statics and the futures -/

/-- The statics of the driver. -/
structure Driver where
  pendingLba : UInt32
  operationComplete : Bool
  writeComplete : Bool
  sectorBuffer : Sector
  sectorWriteBuffer : Sector

def Driver.initial : Driver := ⟨0, false, false, fun _ => 0, fun _ => 0⟩

/-- `read_sector_async` up to its first wait. -/
def readSectorAsync (lba : UInt32) (a : Driver) : Driver × Command :=
  ({ a with pendingLba := lba, operationComplete := false }, ⟨.readSectors, setRegisters lba⟩)

/-- `write_sector_async` up to its first wait. -/
def writeSectorAsync (lba : UInt32) (data : Sector) (a : Driver) : Driver × Command :=
  ({ a with sectorWriteBuffer := data, pendingLba := lba, writeComplete := false },
    ⟨.writeSectors, setRegisters lba⟩)

/-- One look of `SectorRead::poll` for its result. -/
def checkRead (lba : UInt32) (a : Driver) : Driver × Option Sector :=
  if a.operationComplete ∧ a.pendingLba = lba then
    ({ a with operationComplete := false }, some a.sectorBuffer)
  else (a, none)

/-- One look of `SectorWrite::poll`; `true` when it returns. -/
def checkWrite (lba : UInt32) (a : Driver) : Driver × Bool :=
  if a.writeComplete ∧ a.pendingLba = lba then ({ a with writeComplete := false }, true)
  else (a, false)

/-! ### The interrupt handler -/

def statusErr : UInt8 := 0x01
def statusDrq : UInt8 := 0x08

/-- What the handler has done: the new statics, the words it sent, and whether it woke. -/
structure Handled where
  driver : Driver
  sent : Option Words
  woke : Bool

/-- `on_primary_ata_interrupt`, with the status register and what the data port would give. -/
def onPrimaryAtaInterrupt (status : UInt8) (port : Words) (a : Driver) : Handled :=
  if status &&& statusErr ≠ 0 then
    ⟨{ a with operationComplete := false, writeComplete := false }, none, false⟩
  else if status &&& statusDrq ≠ 0 then
    let isWrite := a.writeComplete = false ∧ a.operationComplete = true
    if isWrite then ⟨{ a with writeComplete := true }, some (toWords a.sectorWriteBuffer), true⟩
    else ⟨{ a with sectorBuffer := ofWords port, operationComplete := true }, none, true⟩
  else ⟨a, none, false⟩

/-! ### The driver and the drive -/

/-- The driver, the drive with the commands it has not answered, oldest first, and the futures
that have not returned. -/
structure Sys where
  driver : Driver
  disk : UInt32 → Sector
  device : List Command
  reads : List UInt32
  writes : List UInt32

def Sys.initial (disk : UInt32 → Sector) : Sys := ⟨Driver.initial, disk, [], [], []⟩

inductive Event
  | read (lba : UInt32)
  | write (lba : UInt32) (data : Sector)
  | checkRead (lba : UInt32)
  | checkWrite (lba : UInt32)
  /-- The answer to the oldest command: the status, and the words the port gives when the
  command was not a read. -/
  | interrupt (status : UInt8) (junk : Words)

/-- What the data port holds for the driver: the addressed sector, for a read. -/
def Command.port (cmd : Command) (disk : UInt32 → Sector) (junk : Words) : Words :=
  match cmd.code with
  | .readSectors => toWords (disk cmd.registers.lba)
  | .writeSectors => junk

/-- The disk after an answer; the drive stores what it was sent for a write. -/
def Command.store (cmd : Command) (disk : UInt32 → Sector) (sent : Option Words) :
    UInt32 → Sector :=
  match cmd.code, sent with
  | .writeSectors, some w => Function.update disk cmd.registers.lba (ofWords w)
  | _, _ => disk

/-- One event, with the sector a read returned. -/
def Sys.step (s : Sys) : Event → Option (Sys × Option Sector)
  | .read lba =>
    let (driver, cmd) := readSectorAsync lba s.driver
    some ({ s with driver := driver, device := s.device ++ [cmd], reads := lba :: s.reads }, none)
  | .write lba data =>
    let (driver, cmd) := writeSectorAsync lba data s.driver
    some ({ s with driver := driver, device := s.device ++ [cmd], writes := lba :: s.writes }, none)
  | .checkRead lba =>
    if lba ∈ s.reads then
      match checkRead lba s.driver with
      | (driver, some b) => some ({ s with driver := driver, reads := s.reads.erase lba }, some b)
      | (driver, none) => some ({ s with driver := driver }, none)
    else none
  | .checkWrite lba =>
    if lba ∈ s.writes then
      match checkWrite lba s.driver with
      | (driver, true) => some ({ s with driver := driver, writes := s.writes.erase lba }, none)
      | (driver, false) => some ({ s with driver := driver }, none)
    else none
  | .interrupt status junk =>
    match s.device with
    | [] => none
    | cmd :: rest =>
      let h := onPrimaryAtaInterrupt status (cmd.port s.disk junk) s.driver
      some ({ s with driver := h.driver, disk := cmd.store s.disk h.sent, device := rest }, none)

/-- The state after an event. -/
def Sys.next (s : Sys) (e : Event) : Option Sys := (s.step e).map Prod.fst

/-- A drive that has the data for the command, or wants it, and reports no error. -/
def Event.drq : Event → Prop
  | .interrupt status _ => status &&& statusErr = 0 ∧ status &&& statusDrq ≠ 0
  | _ => True

end RustyOs.Ata
