import RustyOs.Word32
import RustyOs.BlockProg
import RustyOs.Chunks

/-!
The FAT32 driver (`src/fs/fat32.rs`).

Every method is a program over the sectors of the disk: each `await` of a sector read or
write is one transfer, and the name of the transfer says at which `await` of the source the
method stands. A sector number that does not fit in 32 bits, like every other arithmetic
overflow, makes the method give up, as a build with overflow checks does; a method that
returns has therefore computed every number exactly. Writes report success, the only answer
the future of a sector write ever gives.
-/

namespace RustyOs.Fat32

open RustyOs.Word32 RustyOs.BlockProg RustyOs.Chunks

/-- The 512 bytes of a sector. -/
abbrev Sector := Fin 512 → UInt8

/-- What every sector holds. -/
abbrev Disk := UInt32 → Sector

/-- The errors, which in the source are their texts. -/
inductive FatError
  /-- "Invalid FAT32 boot signature" -/
  | invalidBootSignature
  /-- "Cluster chain too long or infinite loop" -/
  | chainTooLong
  /-- "No free clusters available" -/
  | noFreeClusters
  /-- "Filename too long" -/
  | filenameTooLong
  /-- "No free directory entries available" -/
  | noFreeDirEntries
  deriving DecidableEq, Repr

/-- The places where the methods wait for the disk. -/
inductive Await
  | bootRead
  | chainRead
  | fileRead
  | listRead
  | scanRead
  | entryRead
  | entryWrite
  | backupWrite
  | chunkWrite
  | slotRead
  | slotWrite
  deriving DecidableEq, Repr

abbrev FatM := Prog Await UInt32 Sector FatError

def readSector (s : Await) (lba : UInt32) : FatM Sector := .read s lba .ret

def writeSector (s : Await) (lba : UInt32) (data : Sector) : FatM Unit :=
  .write s lba data (.ret ())

/-! ### The boot sector -/

structure BootSector where
  bytesPerSector : UInt16
  sectorsPerCluster : UInt8
  reservedSectors : UInt16
  numFats : UInt8
  totalSectors32 : UInt32
  sectorsPerFat32 : UInt32
  rootCluster : UInt32
  deriving DecidableEq

def fromLeBytes16 (b0 b1 : UInt8) : UInt16 := UInt16.ofNat (b0.toNat + 2 ^ 8 * b1.toNat)

def BootSector.parse (sector : Sector) : Option BootSector :=
  if sector 510 ≠ 0x55 ∨ sector 511 ≠ 0xAA then none
  else some
    { bytesPerSector := fromLeBytes16 (sector 0x0B) (sector 0x0C)
      sectorsPerCluster := sector 0x0D
      reservedSectors := fromLeBytes16 (sector 0x0E) (sector 0x0F)
      numFats := sector 0x10
      totalSectors32 := fromLeBytes (sector 0x20) (sector 0x21) (sector 0x22) (sector 0x23)
      sectorsPerFat32 := fromLeBytes (sector 0x24) (sector 0x25) (sector 0x26) (sector 0x27)
      rootCluster := fromLeBytes (sector 0x2C) (sector 0x2D) (sector 0x2E) (sector 0x2F) }

def BootSector.read : FatM BootSector := do
  let sector ← readSector .bootRead 0
  match BootSector.parse sector with
  | none => .raise .invalidBootSignature
  | some bs => return bs

namespace BootSector

variable (bs : BootSector)

def fatStartSector : UInt32 := bs.reservedSectors.toUInt32

def dataStartSector : Option UInt32 := do
  let fats ← mul32 bs.numFats.toUInt32 bs.sectorsPerFat32
  add32 bs.reservedSectors.toUInt32 fats

def clusterToSector (cluster : UInt32) : Option UInt32 := do
  let start ← bs.dataStartSector
  let index ← sub32 cluster 2
  let offset ← mul32 index bs.sectorsPerCluster.toUInt32
  add32 start offset

end BootSector

/-! ### Directory entries -/

structure DirEntry where
  name : Fin 11 → UInt8
  attributes : UInt8
  firstCluster : UInt32
  fileSize : UInt32
  deriving DecidableEq

namespace DirEntry

def isDirectory (e : DirEntry) : Bool := e.attributes &&& 0x10 ≠ 0

def isValid (e : DirEntry) : Bool := e.name 0 ≠ 0x00 ∧ e.name 0 ≠ 0xE5

/-- The characters of a part of a name, the padding left out. -/
def shownChars (field : List UInt8) : List Char :=
  (field.filter fun b => b ≠ 0x20 ∧ b ≠ 0).map Char.ofUInt8

def getName (e : DirEntry) : String :=
  String.ofList (shownChars ((List.ofFn e.name).take 8) ++
    '.' :: shownChars ((List.ofFn e.name).drop 8))

end DirEntry

/-- The 32 bytes of slot `k` of a directory sector. -/
def slot (sector : Sector) (k : Fin 16) : Fin 32 → UInt8 := fun j =>
  sector ⟨k.val * 32 + j.val, by omega⟩

/-- The sector with `entry` copied into slot `k`. -/
def putSlot (sector : Sector) (k : Fin 16) (entry : Fin 32 → UInt8) : Sector := fun i =>
  if i.val / 32 = k.val then entry ⟨i.val % 32, by omega⟩ else sector i

/-- A slot as `list_directory` reads it. -/
def decodeEntry (raw : Fin 32 → UInt8) : DirEntry :=
  let lowCluster := (fromLeBytes16 (raw 26) (raw 27)).toUInt32
  let highCluster := (fromLeBytes16 (raw 20) (raw 21)).toUInt32
  { name := fun i => raw ⟨i.val, by omega⟩
    attributes := raw 11
    firstCluster := (highCluster <<< 16) ||| lowCluster
    fileSize := fromLeBytes (raw 28) (raw 29) (raw 30) (raw 31) }

/-- The entry `create_dir_entry` builds; a name is the bytes of the string. -/
def createDirEntry (name : List UInt8) (firstCluster fileSize : UInt32) : Fin 32 → UInt8 :=
  let parts := name.splitOn 0x2E
  let baseName := parts.getD 0 []
  let ext := parts.getD 1 []
  let highCluster := (firstCluster >>> 16) &&& 0xFFFF
  let lowCluster := firstCluster &&& 0xFFFF
  fun i =>
    if i.val < 8 then baseName.getD i 0x20
    else if i.val < 11 then ext.getD (i - 8) 0x20
    else if i.val = 11 then 0x20
    else if i.val = 20 then leByte highCluster 0
    else if i.val = 21 then leByte highCluster 1
    else if i.val = 26 then leByte lowCluster 0
    else if i.val = 27 then leByte lowCluster 1
    else if 28 ≤ i.val then leByte fileSize (i - 28)
    else 0

/-! ### Cluster chains -/

variable (bs : BootSector)

def maxIterations : ℕ := 10000

def endOfChain : UInt32 := 0x0FFFFFF8

/-- The offset of a cluster's entry inside its FAT sector. -/
def fatOffset (cluster : UInt32) : ℕ := cluster.toNat * 4 % 512

lemma fatOffset_lt (cluster : UInt32) : fatOffset cluster + 3 < 512 := by
  unfold fatOffset; omega

/-- The FAT sector that holds a cluster's entry. -/
def fatSectorNumber (cluster : UInt32) : Option UInt32 :=
  add32 bs.fatStartSector (UInt32.ofNat (cluster.toNat * 4 / 512))

/-- The loop of `follow_cluster_chain`, with the iterations that are left. -/
def followFrom : ℕ → UInt32 → List UInt32 → FatM (List UInt32)
  | 0, _, _ => .raise .chainTooLong
  | n + 1, current, clusters => do
    let clusters := clusters ++ [current]
    let lba ← .ofOption (fatSectorNumber bs current)
    let fatData ← readSector .chainRead lba
    let nextCluster := getWord fatData (fatOffset current) (fatOffset_lt current)
    if endOfChain ≤ nextCluster then return clusters
    else followFrom n nextCluster clusters

def followClusterChain (startCluster : UInt32) : FatM (List UInt32) :=
  followFrom bs maxIterations startCluster []

section sectors

variable {β : Type} (s : Await) (f : β → Sector → β)

/-- The sectors of one cluster, read in order into an accumulator. -/
def forOffsets (clusterSector : UInt32) : List ℕ → β → FatM β
  | [], acc => return acc
  | i :: is, acc => do
    let lba ← .ofOption (add32 clusterSector (UInt32.ofNat i))
    let sector ← readSector s lba
    forOffsets clusterSector is (f acc sector)

/-- The sectors of all clusters, read in order into an accumulator. -/
def forClusters : List UInt32 → β → FatM β
  | [], acc => return acc
  | c :: cs, acc => do
    let clusterSector ← .ofOption (bs.clusterToSector c)
    let acc ← forOffsets s f clusterSector (List.range bs.sectorsPerCluster.toNat) acc
    forClusters cs acc

end sectors

def readFile (entry : DirEntry) : FatM (List UInt8) := do
  let clusters ← followClusterChain bs entry.firstCluster
  let data ← forClusters bs .fileRead (fun data sector => data ++ List.ofFn sector) clusters []
  return data.take entry.fileSize.toNat

/-- The valid entries of one directory sector. -/
def sectorEntries (sector : Sector) : List DirEntry :=
  ((List.finRange 16).map fun k => decodeEntry (slot sector k)).filter DirEntry.isValid

def listDirectory (cluster : UInt32) : FatM (List DirEntry) := do
  let clusters ← followClusterChain bs cluster
  forClusters bs .listRead (fun entries sector => entries ++ sectorEntries sector) clusters []

/-! ### Allocation -/

/-- The number of the cluster whose entry stands at `offset` of FAT sector `idx`. -/
def clusterIndex (idx offset : UInt32) : Option UInt32 := do
  let base ← mul32 idx 512
  let sum ← add32 base offset
  return sum / 4

lemma wordOffset_lt (w : Fin 128) : 4 * w.val + 3 < 512 := by omega

/-- The inner loop of `find_free_cluster`: the first free entry of one FAT sector. -/
def scanSector (fatData : Sector) (idx : UInt32) : List (Fin 128) → Option (Option UInt32)
  | [] => some none
  | w :: ws =>
    if getWord fatData (4 * w.val) (wordOffset_lt w) = 0 then do
      let cluster ← clusterIndex idx (UInt32.ofNat (4 * w.val))
      if 2 ≤ cluster then some (some cluster) else scanSector fatData idx ws
    else scanSector fatData idx ws

/-- The outer loop of `find_free_cluster`, with the sectors that are left. -/
def findFreeFrom : ℕ → ℕ → FatM UInt32
  | 0, _ => .raise .noFreeClusters
  | n + 1, idx => do
    let lba ← .ofOption (add32 bs.fatStartSector (UInt32.ofNat idx))
    let fatData ← readSector .scanRead lba
    match ← .ofOption (scanSector fatData (UInt32.ofNat idx) (List.finRange 128)) with
    | some cluster => return cluster
    | none => findFreeFrom n (idx + 1)

def findFreeCluster : FatM UInt32 := findFreeFrom bs bs.sectorsPerFat32.toNat 0

def setFatEntry (cluster value : UInt32) : FatM Unit := do
  let lba ← .ofOption (fatSectorNumber bs cluster)
  let fatData ← readSector .entryRead lba
  let fatData := setWord fatData (fatOffset cluster) value
  writeSector .entryWrite lba fatData
  if 1 < bs.numFats then
    let backup ← .ofOption (add32 lba bs.sectorsPerFat32)
    writeSector .backupWrite backup fatData

def allocateCluster (previousCluster nextCluster : Option UInt32) : FatM UInt32 := do
  let newCluster ← findFreeCluster bs
  previousCluster.forM fun prev => setFatEntry bs prev newCluster
  setFatEntry bs newCluster (nextCluster.getD endOfChain)
  return newCluster

/-! ### Creating a file -/

/-- A slot that may be taken: its first byte marks the end or a deleted entry. -/
def freeSlot (sector : Sector) : Option (Fin 16) :=
  (List.finRange 16).find? fun k => slot sector k 0 = 0x00 ∨ slot sector k 0 = 0xE5

/-- The search of one cluster for a free slot; `true` when the entry has been written. -/
def tryOffsets (entry : Fin 32 → UInt8) (clusterSector : UInt32) : List ℕ → FatM Bool
  | [] => return false
  | i :: is => do
    let lba ← .ofOption (add32 clusterSector (UInt32.ofNat i))
    let sector ← readSector .slotRead lba
    match freeSlot sector with
    | some k => do
      writeSector .slotWrite lba (putSlot sector k entry)
      return true
    | none => tryOffsets entry clusterSector is

def tryClusters (entry : Fin 32 → UInt8) : List UInt32 → FatM Unit
  | [] => .raise .noFreeDirEntries
  | c :: cs => do
    let clusterSector ← .ofOption (bs.clusterToSector c)
    if ← tryOffsets entry clusterSector (List.range bs.sectorsPerCluster.toNat) then return ()
    else tryClusters entry cs

def writeDirEntry (directoryCluster : UInt32) (entry : Fin 32 → UInt8) : FatM Unit := do
  let clusters ← followClusterChain bs directoryCluster
  tryClusters bs entry clusters

/-- The loop of `create_file` over the chunks: one new cluster each, of which the first
sector is written. -/
def writeChunks : List (List UInt8) → Option UInt32 → Option UInt32 → FatM (Option UInt32)
  | [], _, firstCluster => return firstCluster
  | chunk :: rest, currentCluster, firstCluster => do
    let newCluster ← allocateCluster bs currentCluster none
    let clusterSector ← .ofOption (bs.clusterToSector newCluster)
    writeSector .chunkWrite clusterSector (fill 0 chunk)
    writeChunks rest (some newCluster) (firstCluster <|> some newCluster)

def createFile (directoryCluster : UInt32) (name data : List UInt8) : FatM Unit :=
  if 12 < name.length then .raise .filenameTooLong
  else do
    let chunks ← .ofOption (chunks? (512 * bs.sectorsPerCluster.toNat) data)
    let firstCluster ← writeChunks bs chunks none none
    let entry := createDirEntry name (firstCluster.getD 0) (UInt32.ofNat data.length)
    writeDirEntry bs directoryCluster entry

end RustyOs.Fat32
