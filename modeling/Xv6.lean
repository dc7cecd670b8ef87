import Xv6.Conc.Cli
import Xv6.Conc.Kill
import Xv6.Conc.KillTargets
import Xv6.Conc.PathScan
import Xv6.Conc.PipeWakeup
import Xv6.Conc.RefRace
import Xv6.Conc.ShmRace
import Xv6.Proofs.BcacheCoherence
import Xv6.Proofs.Confined
import Xv6.Proofs.CopyoutExact
import Xv6.Proofs.ExecImage
import Xv6.Proofs.ForkMemory
import Xv6.Proofs.FreeCount
import Xv6.Proofs.FsAllocator
import Xv6.Proofs.FsDelete
import Xv6.Proofs.FsMaps
import Xv6.Proofs.GrepLines
import Xv6.Proofs.GrepMatch
import Xv6.Proofs.Memmove
import Xv6.Proofs.MkfsMount
import Xv6.Proofs.MpTable
import Xv6.Proofs.OutOfMemory
import Xv6.Proofs.Quota
import Xv6.Proofs.Sbrk
import Xv6.Proofs.ShmAttach
import Xv6.Proofs.ShmFailure
import Xv6.Proofs.Starvation
import Xv6.Proofs.ThreadStacks
import Xv6.Proofs.TickReport
import Xv6.Proofs.FsCalls
import Xv6.Proofs.FsChecksums
