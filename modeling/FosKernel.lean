import FosKernel.Properties.OversizedRequests
import FosKernel.Properties.EnvironmentIds
import FosKernel.Properties.ListMacros
import FosKernel.Properties.RequiredFrames
import FosKernel.Properties.RoundRobin
import FosKernel.Properties.RoundRobinSwitch
import FosKernel.Properties.EnvironmentExit
import FosKernel.Properties.EnvironmentKill
import FosKernel.Properties.EnvironmentStatus
import FosKernel.Properties.Mlfq
import FosKernel.Properties.ReferenceCounts
import FosKernel.Properties.BufferedFrames
import FosKernel.Foundation.Pool
import FosKernel.Properties.ClockHand
import FosKernel.Properties.ModifiedClock
import FosKernel.Properties.BackedAllocations
import FosKernel.Properties.FreedRanges
import FosKernel.Properties.ZeroPages
import FosKernel.Properties.BootMapping
import FosKernel.Properties.WorkingSetSize
import FosKernel.Properties.StabSearch
import FosKernel.Foundation.Raises
import FosKernel.Refinement.Stops
import FosKernel.Properties.MapFrame
import FosKernel.Properties.AllocatePage
import FosKernel.Properties.HeapExhaustion
import FosKernel.Properties.ReclaimedPages
import FosKernel.Refinement.Format
import FosKernel.Properties.Formatting
import FosKernel.Refinement.Numerals
import FosKernel.Properties.Numbers
import FosKernel.Properties.DecimalStrings
import FosKernel.Properties.StringSplit
import FosKernel.Properties.InitialFreeList
import FosKernel.Properties.TemporaryMapping
import FosKernel.Properties.ListForeach
import FosKernel.Properties.CommandLine
import FosKernel.Properties.PageFileAccounting
import FosKernel.Properties.PageContents
import FosKernel.Properties.FreshPages
import FosKernel.Properties.InvalidAccess
import FosKernel.Foundation.RingBuffer
import FosKernel.Text.Pointers
import FosKernel.Console.Input
import FosKernel.Properties.ConsoleInput
import FosKernel.Properties.LineInput
import FosKernel.Properties.Display
import FosKernel.Properties.Keyboard
import FosKernel.Properties.BlockCopies
import FosKernel.Properties.CStrings
import FosKernel.Abstract.FlatMemory
import FosKernel.Properties.FaultSteps
import FosKernel.Properties.LoadedPages
import FosKernel.Properties.ServedFaults
import FosKernel.Properties.PagedMemory
import FosKernel.Abstract.ReferenceHistory
import FosKernel.Paging.Aging
import FosKernel.Properties.TimeStamps
import FosKernel.Properties.RecentlyUsed
import FosKernel.Foundation.Patches
import FosKernel.BootLoader
import FosKernel.Properties.BootLoader
import FosKernel.Console.Printing
import FosKernel.Foundation.Blocks
