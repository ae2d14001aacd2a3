import PageFaultOS.Lib.Exec
import PageFaultOS.Lib.ByteMem
import PageFaultOS.Lib.Radix
import PageFaultOS.Mm.Riscv
import PageFaultOS.Mm.Kalloc
import PageFaultOS.Mm.Vm
import PageFaultOS.Mm.PageTable
import PageFaultOS.Mm.MapPages
import PageFaultOS.Sync.Intr
import PageFaultOS.Sync.Spinlock
import PageFaultOS.Proc.Sched
import PageFaultOS.Proc.Wakeup
import PageFaultOS.Mm.UserCopy
import PageFaultOS.Mm.Tables
import PageFaultOS.Mm.Uvmcopy
import PageFaultOS.Mm.Unmapping
import PageFaultOS.Mm.UserRange
import PageFaultOS.Lib.PostOrder
import PageFaultOS.Mm.Teardown
import PageFaultOS.Mm.Uvm
import PageFaultOS.Fs.Fat32
import PageFaultOS.Fs.Ops
import PageFaultOS.Fs.Volume
import PageFaultOS.Fs.Seek
import PageFaultOS.Fs.Directory
import PageFaultOS.Lib.Ring
import PageFaultOS.Lib.Run
import PageFaultOS.Proc.Pipe
import PageFaultOS.Proc.PipeCounts
import PageFaultOS.Mm.Kinit
import PageFaultOS.Proc.ExitWait
import PageFaultOS.Proc.Family
import PageFaultOS.Proc.Parents
import PageFaultOS.Proc.Status
import PageFaultOS.Fs.FileRefs
import PageFaultOS.Mm.Freewalk
import PageFaultOS.Mm.NullTable
import PageFaultOS.Proc.Lifetime
import PageFaultOS.Fs.Handles
import PageFaultOS.Fs.Balance
import PageFaultOS.Lib.Sim
import PageFaultOS.Fs.Growth
import PageFaultOS.Fs.View
import PageFaultOS.Fs.Lookup
import PageFaultOS.Fs.ReadOnly
import PageFaultOS.Fs.Mount
import PageFaultOS.Fs.Cache
import PageFaultOS.Syscall.Entry
import PageFaultOS.Fs.LongName
import PageFaultOS.Fs.NameMatch
import PageFaultOS.Fs.FileIo
import PageFaultOS.Proc.Exec
import PageFaultOS.Fs.Creating
import PageFaultOS.Fs.Listing
import PageFaultOS.Fs.UniqueNames
import PageFaultOS.Fs.ReadFile
import PageFaultOS.Sync.Sleeplock
import PageFaultOS.Fs.FreeChain
import PageFaultOS.Fs.Component
import PageFaultOS.Fs.Removing
import PageFaultOS.Fs.Allocation
import PageFaultOS.Dev.Console
import PageFaultOS.Fs.Bio
import PageFaultOS.Fs.Mappings
import PageFaultOS.Fs.Paging
import PageFaultOS.Fs.Virtio
import PageFaultOS.Fs.Positions
import PageFaultOS.Fs.FailedSeek
import PageFaultOS.Fs.Init
import PageFaultOS.Fs.ShortNames
import PageFaultOS.Fs.Items
import PageFaultOS.Fs.Completeness
import PageFaultOS.Fs.Candidates
import PageFaultOS.Fs.Scans
import PageFaultOS.Fs.Endless
import PageFaultOS.Fs.Copies
import PageFaultOS.Lib.Emit
import PageFaultOS.Fs.Records
import PageFaultOS.Fs.Overrun
import PageFaultOS.Fs.Dirents
import PageFaultOS.Mm.Kvm
import PageFaultOS.Proc.LockBalance
import PageFaultOS.Fs.AtCalls
import PageFaultOS.Fs.WorkDir
import PageFaultOS.Fs.FailedCalls
import PageFaultOS.Fs.Descriptors
import PageFaultOS.Fs.HandleRace
import PageFaultOS.Fs.Munmap
import PageFaultOS.Proc.ExecStack
import PageFaultOS.Syscall.Execve
import PageFaultOS.Mm.TableCount
import PageFaultOS.Mm.UvmGrow
import PageFaultOS.Syscall.Brk
import PageFaultOS.Proc.ForkRace
import PageFaultOS.Lib.CellCopy
import PageFaultOS.Libs.Memmove
import PageFaultOS.Lib.Numeral
import PageFaultOS.Libs.Printf
import PageFaultOS.Libs.Panic
import PageFaultOS.Dev.Clock
import PageFaultOS.Dev.Uart
import PageFaultOS.Proc.SleepTime
import PageFaultOS.Fs.BufferLocks
import PageFaultOS.Fs.Shorten
import PageFaultOS.Dev.Sdcard
import PageFaultOS.Fs.DeviceFs
import PageFaultOS.Fs.Format
import PageFaultOS.Fs.Mkdir
import PageFaultOS.Fs.Covering
import PageFaultOS.Fs.WriteFile
import PageFaultOS.Fs.Consistent
import PageFaultOS.Lib.Rv64
import PageFaultOS.Lib.Refine
import PageFaultOS.Fs.BlockDevice
import PageFaultOS.Mm.KvmInit
import PageFaultOS.Trap.Trampoline
import PageFaultOS.Trap.KernelVec
import PageFaultOS.Trap.Firmware
import PageFaultOS.Trap.Forward
import PageFaultOS.Proc.Switch
