import PerfAgent.Bpf.Aggregation
import PerfAgent.Bpf.BatchAccounting
import PerfAgent.Bpf.OffCpuIntervals
import PerfAgent.Bpf.SchedStats
import PerfAgent.Bpf.ZeroFrames
import PerfAgent.CubinFile.Attribution
import PerfAgent.Debuginfod.CacheEviction
import PerfAgent.Debuginfod.FrameSlots
import PerfAgent.Dwarfagent.Aggregation
import PerfAgent.Dwarfagent.LazyInterpRuns
import PerfAgent.Dwarfagent.MissDrainer
import PerfAgent.Dwarfagent.WalkSample
import PerfAgent.Flamegraph.FrameNames
import PerfAgent.Flamegraph.Fuse
import PerfAgent.Gpu.ArrivalOrder
import PerfAgent.Gpu.Attribution
import PerfAgent.Gpu.ExactShares
import PerfAgent.Gpu.GraphRefusal
import PerfAgent.Gpu.HeuristicScan
import PerfAgent.Gpu.JoinHealth
import PerfAgent.Gpu.LaunchHorizon
import PerfAgent.Gpu.ModuleStoreRun
import PerfAgent.Gpu.OrderBound
import PerfAgent.Gpu.SerializationOrder
import PerfAgent.Gpu.SinkAdmission
import PerfAgent.Gpu.SnapshotLedger
import PerfAgent.Gpuprobe.ConsumerConservation
import PerfAgent.Gpuprobe.CubinAccounting
import PerfAgent.Gpuprobe.EnrollAdmission
import PerfAgent.Gpuprobe.Instrumentation
import PerfAgent.Gpuprobe.MissingNames
import PerfAgent.Gpuprobe.PendingRuns
import PerfAgent.Gpuprobe.PidRegistryRuns
import PerfAgent.Gpuprobe.WindowDelivery
import PerfAgent.Gpuprobe.WindowModes
import PerfAgent.Gpuprofile.LogExplains
import PerfAgent.Gpuprofile.Stopping
import PerfAgent.Gputelemetry.Collector
import PerfAgent.Metrics.Accounting
import PerfAgent.Metrics.Rotating
import PerfAgent.Perfdata.RoundTrip
import PerfAgent.Pprof.SampleMerging
import PerfAgent.Procmap.Warming
import PerfAgent.Profile.Collect
import PerfAgent.Pyunwind.TssParse
import PerfAgent.Shim.Batch
import PerfAgent.Shim.BurstThreads
import PerfAgent.Shim.CallGuardRuns
import PerfAgent.Shim.ClockFit
import PerfAgent.Shim.Correlation
import PerfAgent.Shim.CubinConservation
import PerfAgent.Shim.CubinReload
import PerfAgent.Shim.Disclosure
import PerfAgent.Shim.DrainSchedule
import PerfAgent.Shim.DutyCeiling
import PerfAgent.Shim.EnrollName
import PerfAgent.Shim.SampleSchedule
import PerfAgent.Shim.TierSetting
import PerfAgent.Symbolize.NvsymDownloads
import PerfAgent.Symbolize.StartLines
import PerfAgent.Unwind.ExactRows
import PerfAgent.Unwind.LebDecoding
import PerfAgent.Unwind.MmapWatcher
import PerfAgent.Unwind.ModuleSetRuns
import PerfAgent.Unwind.SearchableRows
import PerfAgent.Unwind.TableSearch
import PerfAgent.Unwind.TrackerBalance
import PerfAgent.Unwind.TrackerRun
import PerfAgent.Usdt.ParseNotes
