import DioptaseOS.Lib.PtrList
import DioptaseOS.Lib.BuddyBlock
import DioptaseOS.Lib.Ledger
import DioptaseOS.Lib.Footprint
import DioptaseOS.Physmem.Basic
import DioptaseOS.Physmem.Allocator
import DioptaseOS.Physmem.System
import DioptaseOS.Physmem.AllocOrder
import DioptaseOS.Heap.Basic
import DioptaseOS.Heap.Slab
import DioptaseOS.Heap.Malloc
import DioptaseOS.Heap.MallocInv
import DioptaseOS.Heap.System
import DioptaseOS.Vmem.Basic
import DioptaseOS.Vmem.PageCache
import DioptaseOS.Vmem.Paging
import DioptaseOS.Vmem.Mmap
import DioptaseOS.Vmem.Fork
import DioptaseOS.Lib.RadixTree
import DioptaseOS.Lib.RefCount
import DioptaseOS.Ext2.Basic
import DioptaseOS.Ext2.Getdents
import DioptaseOS.Ext2.BlockCache
import DioptaseOS.Ext2.Dir
import DioptaseOS.Ext2.Namespace
import DioptaseOS.Ext2.BlockTree
import DioptaseOS.Ext2.InodeCache
import DioptaseOS.Ext2.InodeCacheInv
import DioptaseOS.Sys.Mmap
import DioptaseOS.Sys.UserCopy
import DioptaseOS.Sys.Exec
import DioptaseOS.Bcc.Lexer
import DioptaseOS.Sys.Elf
import DioptaseOS.Lib.TwosComplement
import DioptaseOS.Bcc.Typecheck
import DioptaseOS.Bcc.CSemantics
import DioptaseOS.Bcc.TacArith
import DioptaseOS.Bcc.ConstEval
import DioptaseOS.Ext2.NodeFind
import DioptaseOS.Bcc.StaticInit
import DioptaseOS.Queue.RingBuf
import DioptaseOS.Queue.SleepQueue
import DioptaseOS.Lib.Recency
import DioptaseOS.Ext2.BlockCacheLru
import DioptaseOS.Bcc.NumLiteral
import DioptaseOS.Basm.Encode
import DioptaseOS.Bcc.Cleanup
import DioptaseOS.Lib.ChainedHash
import DioptaseOS.Bcc.StackSlots
import DioptaseOS.Kernel.HashMap
import DioptaseOS.Queue.LinkedQueue
import DioptaseOS.Lib.BitField
import DioptaseOS.Basm.RoundTrip
import DioptaseOS.Lib.CountingSem
import DioptaseOS.Lib.ArrivalOrder
import DioptaseOS.Sync.Semaphore
import DioptaseOS.Sync.BlockingLock
import DioptaseOS.Sync.RwLock
