import Xv6.Log.Disk
import Xv6.Transition.Run
import Xv6.Log.Crash
import Xv6.Log.CrashAtomicity
import Xv6.Log.Protocol
import Xv6.Log.ProtocolSafety
import Xv6.Log.Groups
import Xv6.Log.Reservation
import Xv6.Data.Chain
import Xv6.Data.Ensures
import Xv6.Data.Holding
import Xv6.Data.Ledger
import Xv6.Data.Ownership
import Xv6.Data.References
import Xv6.Data.Ring
import Xv6.Data.Splice
import Xv6.Fs.BlockOwnership
import Xv6.Fs.FlatFile
import Xv6.Fs.SharedOffset
import Xv6.Fs.Sysfile
import Xv6.Fs.Paths
import Xv6.Fs.Namex
import Xv6.Fs.NamexLocks
import Xv6.Kalloc.Freemem
import Xv6.Kalloc.FreememCount
import Xv6.Proc.Fork
import Xv6.Proc.TraceMask
import Xv6.Ipc.Pipe
import Xv6.Proc.Wakeup
import Xv6.Ipc.PipeSleep
import Xv6.Ipc.PipeInvariant
import Xv6.Ipc.PipeFifo
import Xv6.Ipc.PipeWakeup
import Xv6.Sched.Machine
import Xv6.Sched.Transitions
import Xv6.Sched.Locks
import Xv6.Sched.Execution
import Xv6.Sched.ExecutionStep
import Xv6.Sched.Exclusion
import Xv6.Sched.Kill
import Xv6.Sched.Places
import Xv6.Sched.Wakeup
import Xv6.Sched.Sleeplock
import Xv6.Sched.Family
import Xv6.Sched.Wait
import Xv6.Sched.Reap
import Xv6.Virtio.Disk
import Xv6.Virtio.Descriptors
import Xv6.Virtio.Protocol
import Xv6.Ftable.Calls
import Xv6.Ftable.Ownership
import Xv6.Ftable.CallSpec
import Xv6.Ftable.References
import Xv6.Virtio.RequestSafety
import Xv6.Console.Input
import Xv6.Console.LineEditor
import Xv6.Mkfs.Mkfs
import Xv6.Mkfs.Append
import Xv6.Mkfs.Files
import Xv6.Mkfs.Image
import Xv6.Mkfs.Agreement
import Xv6.Mkfs.Soundness
import Xv6.Data.Scan
import Xv6.Sh.Parser
import Xv6.Sh.Tokens
import Xv6.Sh.Grammar
import Xv6.Sh.Soundness
import Xv6.Sh.Completeness
import Xv6.Sh.Line
import Xv6.Sh.Structs
import Xv6.Data.Radix
import Xv6.Vm.Phys
import Xv6.Vm.PageTable
import Xv6.Vm.Words
import Xv6.Vm.Tree
import Xv6.Vm.Walk
import Xv6.Vm.Mapping
import Xv6.Vm.Freewalk
import Xv6.Vm.FiniteMap
import Xv6.Vm.Copy
import Xv6.Vm.Process
import Xv6.Kernel.Grow
import Xv6.Exec.Arguments
import Xv6.Exec.Program
import Xv6.Read.Limit
import Xv6.Lib.Memmove
import Xv6.Grep.Lines
import Xv6.Umalloc.Heap
import Xv6.Umalloc.Layout
import Xv6.Umalloc.Release
import Xv6.Umalloc.Allocate
import Xv6.Umalloc.Sequence
import Xv6.Umalloc.Process
