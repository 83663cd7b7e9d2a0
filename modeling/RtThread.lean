import RtThread.Core.Machine
import RtThread.Core.StableOrder
import RtThread.Core.BoundedFifo
import RtThread.Core.BlockChain
import RtThread.Core.Extents
import RtThread.Core.Ring
import RtThread.Core.Tiles
import RtThread.Core.LayeredList
import RtThread.Core.WrapClock
import RtThread.Core.Bitmap
import RtThread.Core.RoundRobin
import RtThread.Core.LinkedCells
import RtThread.Core.DequeLog
import RtThread.Core.ComponentPath
import RtThread.Core.Tally
import RtThread.Core.PriorityFifo
import RtThread.Core.Recorder
import RtThread.Kernel.Thread
import RtThread.Kernel.Signal
import RtThread.Kernel.SignalDelivery
import RtThread.Ipc.WaitList
import RtThread.Ipc.Semaphore
import RtThread.Ipc.Mutex
import RtThread.Ipc.MutexOwnership
import RtThread.Ipc.MutexPriority
import RtThread.Ipc.MutexHandOff
import RtThread.Ipc.Event
import RtThread.Ipc.Mailbox
import RtThread.Ipc.MailboxWakeup
import RtThread.Ipc.MessageQueue
import RtThread.Ipc.MessageQueueCells
import RtThread.Ipc.MessageQueueDelivery
import RtThread.Ipc.MessageQueueResidue
import RtThread.Ipc.TimedWait
import RtThread.Ipc.TimedWaitDeadline
import RtThread.Heap.SmallMem
import RtThread.Heap.SmallMemTiling
import RtThread.Heap.SmallMemInvariant
import RtThread.Heap.SmallMemRuns
import RtThread.Heap.SmallMemStats
import RtThread.Heap.PageAlloc
import RtThread.Heap.Slab
import RtThread.Heap.SlabLists
import RtThread.Heap.SlabZones
import RtThread.Heap.SlabPages
import RtThread.Heap.SlabRuns
import RtThread.Heap.Memheap
import RtThread.Heap.MemheapRings
import RtThread.Heap.MemheapInvariant
import RtThread.Heap.MemheapRealloc
import RtThread.Heap.MemheapRuns
import RtThread.Pool.MemPool
import RtThread.Pool.MemPoolBlocks
import RtThread.Pool.MemPoolWaiters
import RtThread.Scheduler.ReadyQueue
import RtThread.Scheduler.Scheduler
import RtThread.Scheduler.Dispatch
import RtThread.Scheduler.Smp
import RtThread.Timer.Timer
import RtThread.Timer.TimerActive
import RtThread.Timer.SoftTimer
import RtThread.Timer.TimerOrder
import RtThread.Timer.TimerExpiry
import RtThread.Timer.ThreadTimer
import RtThread.Drivers.Ringbuffer
import RtThread.Drivers.RingBlk
import RtThread.Drivers.RingBlkQueue
import RtThread.Drivers.DataQueue
import RtThread.Drivers.WorkQueue
import RtThread.Drivers.WorkQueueExecution
import RtThread.Drivers.WaitQueue
import RtThread.Drivers.Pipe
import RtThread.Dfs.Path
import RtThread.Dfs.MountTable
import RtThread.Dfs.Mount
import RtThread.Dfs.FdTable
import RtThread.Dfs.Normalize
import RtThread.Dfs.OpenFiles
import RtThread.Dfs.FdReferences
import RtThread.Vbus.WatermarkQueue
import RtThread.Vbus.PrioQueue
import RtThread.Vbus.PrioQueueRuns
import RtThread.Vbus.BusRing
import RtThread.Vbus.RingTransport
import RtThread.Vbus.Post
import RtThread.Vbus.PostLevels
import RtThread.Vbus.FlowControl
import RtThread.Drivers.Completion
import RtThread.Pthreads.Cond
import RtThread.Pthreads.CondWakeups
import RtThread.Pthreads.Barrier
import RtThread.Pthreads.Rwlock
import RtThread.Pthreads.ThreadSpecific
import RtThread.Pthreads.MqRegistry
import RtThread.Drivers.SerialTx
import RtThread.Core.NewestFifo
import RtThread.Drivers.SerialRx
import RtThread.Net.AtClient
import RtThread.Net.AtClientPairing
import RtThread.Net.AtServer
import RtThread.Ipc.NoticeLoops
import RtThread.Utilities.Ymodem
import RtThread.Utilities.YmodemTransfer
import RtThread.Utilities.YmodemRun
import RtThread.Utilities.YmodemProgress
import RtThread.Core.CyclicClock
import RtThread.Core.Crc
import RtThread.Core.BoundedPrinter
import RtThread.Core.EditLine
import RtThread.Kernel.Printf
import RtThread.Kernel.PrintfBounds
import RtThread.Utilities.Zcore
import RtThread.Utilities.ZcoreData
import RtThread.Utilities.ZcoreBounds
import RtThread.Utilities.ZcoreHeader
import RtThread.Utilities.Ulog
import RtThread.Utilities.UlogLine
import RtThread.Finsh.Heap
import RtThread.Finsh.HeapLists
import RtThread.Finsh.HeapInvariant
import RtThread.Finsh.HeapRuns
import RtThread.Finsh.StringLiterals
import RtThread.Finsh.Shell
import RtThread.Finsh.ShellEditing
import RtThread.Finsh.Msh
import RtThread.Finsh.Node
import RtThread.Finsh.Compiler
import RtThread.Finsh.Vm
import RtThread.Finsh.CodeSafety
import RtThread.Finsh.Increments
import RtThread.Heap.SmallMemRequests
import RtThread.Heap.SlabAlignment
import RtThread.Heap.MemheapRequests
import RtThread.Heap.MemheapContents
import RtThread.Heap.MemheapAlignment
import RtThread.Scheduler.SmpPick
import RtThread.Timer.TimerTermination
import RtThread.Timer.TimerThread
import RtThread.Drivers.Alarm
import RtThread.Drivers.AlarmUpdate
import RtThread.Drivers.AlarmCalendar
import RtThread.Drivers.AlarmSelection
import RtThread.Drivers.RingbufferForce
import RtThread.Ipc.EventPaths
import RtThread.Drivers.DelayedWork
import RtThread.Pthreads.RwlockDestroy
import RtThread.Pthreads.ThreadCreate
import RtThread.Dfs.Poll
import RtThread.Dfs.Select
import RtThread.Dfs.NormalizeResolve
import RtThread.Heap.SmallMemSearch
import RtThread.Heap.SmallMemRealloc
import RtThread.Kernel.MemoryCopy
