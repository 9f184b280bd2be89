import SmpTKernel.ReadyQueuePlace
import SmpTKernel.MessageBufferFlow
import SmpTKernel.MempoolService
import SmpTKernel.ImallocInv
import SmpTKernel.PageTableInv
import SmpTKernel.DomainRuns
import SmpTKernel.TimerRuns
import SmpTKernel.ExtendedSvcRuns
import SmpTKernel.RendezvousRuns
import SmpTKernel.HandlerGridRuns
import SmpTKernel.SemaphoreInv
import SmpTKernel.EventFlagInv
import SmpTKernel.FastLockInv
import SmpTKernel.FastMLockInv
import SmpTKernel.DeviceOpenInv
import SmpTKernel.DeviceRequestInv
import SmpTKernel.KernelMask
import SmpTKernel.KernelChainRuns
import SmpTKernel.KernelSync
import SmpTKernel.KernelOrder
import SmpTKernel.MempoolSizes
import SmpTKernel.MessageBufferSizes
import SmpTKernel.MempfixInv
import SmpTKernel.MailboxInv
import SmpTKernel.DeviceNameInv
import SmpTKernel.DeviceModes
import SmpTKernel.TaskSelfInv
import SmpTKernel.ObjectNameInv
import SmpTKernel.ObjectLifeRuns
import SmpTKernel.PageRelease
import SmpTKernel.ReadyQueueRotate
import SmpTKernel.RendezvousNumber
import SmpTKernel.DeviceNameBuffer
import SmpTKernel.TaskStackRuns
import SmpTKernel.MemallocSizes
import SmpTKernel.BestFit
import SmpTKernel.Memcheck
import SmpTKernel.MempoolRelease
import SmpTKernel.BitopUses
import SmpTKernel.Reschedule
import SmpTKernel.ConfigInv
import SmpTKernel.KernelMutex
import SmpTKernel.KernelBoostRuns
import SmpTKernel.SchedulerRuns
import SmpTKernel.Rotation
import SmpTKernel.SpinLock
import SmpTKernel.Atomic
import SmpTKernel.SmpCallRuns
import SmpTKernel.TaskExceptionRuns
import SmpTKernel.SubsystemRuns
import SmpTKernel.DeviceSuspendInv
