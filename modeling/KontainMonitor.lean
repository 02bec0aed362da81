import KontainMonitor.Signal.Directed
import KontainMonitor.Vcpu.Recycle
import KontainMonitor.Snapshot.Threads
import KontainMonitor.Exec.Influence
import KontainMonitor.Mmap.FileRuns
import KontainMonitor.Mmap.Remap
import KontainMonitor.Mem.TableRuns
import KontainMonitor.Mmap.Heap
import KontainMonitor.Mmap.Access
import KontainMonitor.Mmap.Delayed
import KontainMonitor.Signal.Pool
import KontainMonitor.Signal.Timedwait
import KontainMonitor.Vcpu.Unblockable
import KontainMonitor.Vcpu.RunLoop
import KontainMonitor.Snapshot.SignalActions
import KontainMonitor.Files.PairEnds
import KontainMonitor.Files.DupGroups
import KontainMonitor.Hcalls.IoContexts
import KontainMonitor.Hcalls.Execveat
import KontainMonitor.Files.RestoredSockets
import KontainMonitor.Files.Auxv
import KontainMonitor.Gdb.Registers
import KontainMonitor.Gdb.Breakpoints
import KontainMonitor.Gdb.Packets
