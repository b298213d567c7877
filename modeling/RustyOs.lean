import RustyOs.Word32
import RustyOs.BlockProg
import RustyOs.Links
import RustyOs.Chunks
import RustyOs.Fat32
import RustyOs.FatTable
import RustyOs.FatAlloc
import RustyOs.FatData
import RustyOs.FatCreate
import RustyOs.FatFrame
import RustyOs.FatRoundTrip
import RustyOs.FatInterleave
import RustyOs.FatTurns
import RustyOs.Ata
import RustyOs.Machine
import RustyOs.AtaRuns
import RustyOs.AtaQueue
import RustyOs.Allocator
import RustyOs.FixedSizeBlock
import RustyOs.LinkedList
import RustyOs.TaskRuns
import RustyOs.Polled
import RustyOs.TaskQueue
import RustyOs.Rotation
import RustyOs.Executors
import RustyOs.Kernel
import RustyOs.Keyboard
import RustyOs.KernelRank
import RustyOs.DiskTask
import RustyOs.Bump
import RustyOs.FatMirror
import RustyOs.Frames
import RustyOs.LinkedListAccount
import RustyOs.LinkedListReuse
import RustyOs.BlockPeak
import RustyOs.QueueBound
import RustyOs.FatBounds
import RustyOs.FatReserved
import RustyOs.DiskRuns
import RustyOs.FatLookup
import RustyOs.FatLens
import RustyOs.FatGeometry
import RustyOs.FatNames
import RustyOs.FatDirectory
import RustyOs.FatBytes
import RustyOs.VgaBuffer
import RustyOs.Window
import RustyOs.CrashLogic
import RustyOs.FatCrash
import RustyOs.FatHistory
import RustyOs.FatSnapshot
import RustyOs.FatCapacity
import RustyOs.SectorTask
import RustyOs.FatTask
import RustyOs.DiskProgress
import RustyOs.SectorRuns
import RustyOs.HeapMapping
import RustyOs.BlockMemory
import RustyOs.LinkedListMemory
import RustyOs.Masking
import RustyOs.Printing
