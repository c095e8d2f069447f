import Xv6Riscv.BufferLru
import Xv6Riscv.CopyoutLocks
import Xv6Riscv.CowRefinement
import Xv6Riscv.DirectoryMaps
import Xv6Riscv.DiskRequests
import Xv6Riscv.FileCounts
import Xv6Riscv.FileRead
import Xv6Riscv.ForkFailure
import Xv6Riscv.GrepLines
import Xv6Riscv.GroupCommit
import Xv6Riscv.InodeBudget
import Xv6Riscv.IntCounters
import Xv6Riscv.LineDiscipline
import Xv6Riscv.MkfsImage
import Xv6Riscv.NamingAtomicity
import Xv6Riscv.PbsSelection
import Xv6Riscv.PinnedBuffers
import Xv6Riscv.PipeSleep
import Xv6Riscv.PriorityArithmetic
import Xv6Riscv.ShellAccepts
import Xv6Riscv.StoreFaults
import Xv6Riscv.UmallocSizes
import Xv6Riscv.UnlinkedFiles
import Xv6Riscv.WriteProtection
