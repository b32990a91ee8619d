import LinuxInterview.Library.Runs
import LinuxInterview.Library.FirstMatch
import LinuxInterview.Library.GracePeriod
import LinuxInterview.Library.Heartbeat
import LinuxInterview.Library.History
import LinuxInterview.Library.RadixWalk
import LinuxInterview.Library.Script
import LinuxInterview.Library.Successor
import LinuxInterview.Library.Text
import LinuxInterview.Library.Decimal
import LinuxInterview.Library.Csv
import LinuxInterview.Library.Words
import LinuxInterview.Library.FixedPoint
import LinuxInterview.Library.Ownership
import LinuxInterview.Library.Pattern
import LinuxInterview.Library.CarryOver
import LinuxInterview.Rkspy.Tracker
import LinuxInterview.Rkspy.Driver
import LinuxInterview.Rkspy.Refinement
import LinuxInterview.Rkspy.Shapes
import LinuxInterview.Rkspy.Tiling
import LinuxInterview.Rkspy.TableLines
import LinuxInterview.Rkspy.Readback
import LinuxInterview.PageTable.Descriptor
import LinuxInterview.PageTable.Walk
import LinuxInterview.PageTable.Convert
import LinuxInterview.Mmio.DeviceTree
import LinuxInterview.Mmio.Check
import LinuxInterview.Mmio.Dump
import LinuxInterview.Mmio.Clocks
import LinuxInterview.AddressMap.Inventory
import LinuxInterview.AddressMap.Join
import LinuxInterview.AddressMap.RoundTrip
import LinuxInterview.AddressMap.TrmRows
import LinuxInterview.RcuDemo.Threads
import LinuxInterview.RcuDemo.Ledger
import LinuxInterview.RcuDemo.Invariant
import LinuxInterview.RcuDemo.Values
import LinuxInterview.RcuDemo.Safety
import LinuxInterview.BarrierMp.Threads
import LinuxInterview.BarrierMp.Handshake
import LinuxInterview.DlLab.Threads
import LinuxInterview.DlLab.Mutexes
import LinuxInterview.DlLab.Rescue
import LinuxInterview.WqProbe.Workqueue
import LinuxInterview.WqProbe.Unload
import LinuxInterview.Lockup.HungTable
import LinuxInterview.Lockup.HungTask
import LinuxInterview.Lockup.HungReports
import LinuxInterview.Lockup.Neighbour
import LinuxInterview.Lockup.Watchdog
import LinuxInterview.Lockup.HardLockup
import LinuxInterview.Lockup.Kick
import LinuxInterview.Lockup.SoftLockup
import LinuxInterview.Lockup.Commands
import LinuxInterview.Lockup.Sessions
import LinuxInterview.Lockup.Scripts
import LinuxInterview.Lockup.Unload
import LinuxInterview.Lockup.Soundness
import LinuxInterview.Lockup.Parser
import LinuxInterview.Arithmetic.NospecMask
import LinuxInterview.Arithmetic.CalcDelta
import LinuxInterview.Wbtest.Drm
import LinuxInterview.Wbtest.Run
import LinuxInterview.Wbtest.Leaks
import LinuxInterview.Arithmetic.DecayLoad
import LinuxInterview.Library.Encoding
import LinuxInterview.SyncProbe.Decode
import LinuxInterview.RelocMod.Targets
import LinuxInterview.SyncProbe.Classes
import LinuxInterview.Rkspy.Registers
import LinuxInterview.Rkspy.RawDump
import LinuxInterview.Library.Reading
import LinuxInterview.Rkspy.Bounds
import LinuxInterview.AddressMap.Overlap
import LinuxInterview.AddressMap.Sizes
import LinuxInterview.AddressMap.TrmTable
import LinuxInterview.Library.Interleaving
import LinuxInterview.AddressMap.TrmComplete
import LinuxInterview.Library.Grouping
import LinuxInterview.Library.Slices
import LinuxInterview.Rkspy.Printed
import LinuxInterview.Rkspy.Verdicts
import LinuxInterview.Rkspy.TilingRule
import LinuxInterview.Library.Ring
import LinuxInterview.CacheProbe.PointerRing
import LinuxInterview.Library.Fastest
import LinuxInterview.SideChannel.Reload
import LinuxInterview.StackWalk.FrameChain
import LinuxInterview.StackWalk.Completeness
import LinuxInterview.StackWalk.FullDump
import LinuxInterview.Library.CasMax
import LinuxInterview.SoftirqPar.Bump
import LinuxInterview.SoftirqPar.Elapsed
import LinuxInterview.Library.Tickets
import LinuxInterview.IrqLive.Gates
import LinuxInterview.IrqLive.Records
import LinuxInterview.Library.Locks
import LinuxInterview.DlLab.Abba
import LinuxInterview.DlLab.BookEscape
import LinuxInterview.SideChannel.Ballots
import LinuxInterview.WakeCpu.Lockstep
import LinuxInterview.Library.Interpolation
import LinuxInterview.Tsadc.Interp
import LinuxInterview.Mmio.PllDecode
import LinuxInterview.Tsadc.Compare
import LinuxInterview.Library.RunLengths
import LinuxInterview.Wbtest.Atomic
import LinuxInterview.Library.Tally
import LinuxInterview.RtLatency.Histogram
import LinuxInterview.LockBench.Threads
import LinuxInterview.LockBench.Rounds
import LinuxInterview.Library.CString
import LinuxInterview.ProcStat.Fields
import LinuxInterview.Ksm.Restore
import LinuxInterview.Library.RwSem
import LinuxInterview.RwsemLab.Threads
import LinuxInterview.RwsemLab.Unload
import LinuxInterview.RwsemLab.Probe
import LinuxInterview.RwsemLab.BookCase
import LinuxInterview.Library.Reordering
import LinuxInterview.BarrierSb.Slots
import LinuxInterview.BarrierSb.Outcomes
import LinuxInterview.Library.Tasklet
import LinuxInterview.SoftirqPar.OneTasklet
import LinuxInterview.SoftirqPar.Serial
import LinuxInterview.Library.Chunks
import LinuxInterview.Wbtest.ToPng
import LinuxInterview.Library.Stores
import LinuxInterview.Wbtest.Gradient
import LinuxInterview.Wbtest.Links
