import OpaFm.Cs.Bitset
import OpaFm.Cs.Hashtable
import OpaFm.Cs.Pool
import OpaFm.Cs.Proofs.Bitset
import OpaFm.Cs.Proofs.Hashtable
import OpaFm.Cs.Proofs.HashtableRefine
import OpaFm.Cs.Proofs.PaddedBits
import OpaFm.Cs.Proofs.Queue
import OpaFm.Cs.Queue
import OpaFm.DbSync.Proofs.SyncStatus
import OpaFm.DbSync.SyncStatus
import OpaFm.Dor.Closure
import OpaFm.Dor.Lft
import OpaFm.Dor.Proofs.Completeness
import OpaFm.Dor.Proofs.DeadlockFree
import OpaFm.Dor.Proofs.Geometry
import OpaFm.Dor.Proofs.Lft
import OpaFm.Dor.Proofs.LookupTable
import OpaFm.Dor.Proofs.ScScMap
import OpaFm.Dor.Proofs.Soundness
import OpaFm.Dor.Proofs.SwIdxChange
import OpaFm.Dor.Proofs.SwitchOrder
import OpaFm.Dor.Proofs.Walk
import OpaFm.Dor.ScScMap
import OpaFm.DorBiu.Closure
import OpaFm.DorBiu.Proofs.Closure
import OpaFm.DorBiu.Proofs.ScScFixpoint
import OpaFm.DorBiu.Proofs.SiPortGroup
import OpaFm.DorBiu.Proofs.SiScScMap
import OpaFm.DorBiu.SiScScMap
import OpaFm.Election.Proofs.Handover
import OpaFm.Election.Proofs.Mastership
import OpaFm.Election.SmFsm
import OpaFm.Fabric.LidMap
import OpaFm.Fabric.Proofs.LidEntries
import OpaFm.Fabric.Proofs.LidMap
import OpaFm.Fabric.Proofs.SwitchSpace
import OpaFm.Fabric.SwitchSpace
import OpaFm.Fabric.Topology
import OpaFm.Jm.Proofs.Wire
import OpaFm.Jm.Wire
import OpaFm.Lib.AssocMap
import OpaFm.Lib.Bfs
import OpaFm.Lib.BfsRoutes
import OpaFm.Lib.BinaryHeap
import OpaFm.Lib.Delivery
import OpaFm.Lib.Fifo
import OpaFm.Lib.FirstMatch
import OpaFm.Lib.Floyd
import OpaFm.Lib.Fold
import OpaFm.Lib.Iterator
import OpaFm.Lib.LinkedList
import OpaFm.Lib.Meter
import OpaFm.Lib.RedBlackTree
import OpaFm.Lib.RoundRobin
import OpaFm.Lib.RowMajor
import OpaFm.Lib.Run
import OpaFm.Lib.Tiling
import OpaFm.Lib.TopList
import OpaFm.Lib.WordBits
import OpaFm.Lib.WriteLog
import OpaFm.Multicast.Group
import OpaFm.Multicast.LidPool
import OpaFm.Multicast.McMemberRecord
import OpaFm.Multicast.Mft
import OpaFm.Multicast.Proofs.Atomicity
import OpaFm.Multicast.Proofs.Isolation
import OpaFm.Multicast.Proofs.LegacySpanningTree
import OpaFm.Multicast.Proofs.LidClass
import OpaFm.Multicast.Proofs.LidPool
import OpaFm.Multicast.Proofs.LidSharing
import OpaFm.Multicast.Proofs.Mft
import OpaFm.Multicast.Proofs.PortMasks
import OpaFm.Multicast.Proofs.SaStep
import OpaFm.Multicast.Proofs.SetMft
import OpaFm.Multicast.Proofs.SpanningTree
import OpaFm.Multicast.Proofs.SyncLid
import OpaFm.Multicast.Proofs.TakeOver
import OpaFm.Multicast.SetMft
import OpaFm.Multicast.SpanningTree
import OpaFm.Partition.DeviceGroup
import OpaFm.Partition.NodeDescription
import OpaFm.Partition.PKey
import OpaFm.Partition.Proofs.BracketRange
import OpaFm.Partition.Proofs.DescriptionArrays
import OpaFm.Partition.Proofs.Descriptions
import OpaFm.Partition.Proofs.DeviceGroup
import OpaFm.Partition.Proofs.DgSearch
import OpaFm.Partition.Proofs.PKeyChecks
import OpaFm.Partition.Proofs.PKeySetup
import OpaFm.Partition.Proofs.PKeyTable
import OpaFm.Partition.Proofs.ServiceIds
import OpaFm.Partition.VirtualFabric
import OpaFm.PathRecord.LidIterator
import OpaFm.PathRecord.PathRecordSet
import OpaFm.PathRecord.Proofs.FixedLid
import OpaFm.PathRecord.Proofs.LidIterator
import OpaFm.PathRecord.Proofs.PacketRoute
import OpaFm.PathRecord.Proofs.PathLids
import OpaFm.PathRecord.Proofs.PathRecordSet
import OpaFm.PathRecord.Proofs.VfGroups
import OpaFm.PathRecord.Proofs.Walk
import OpaFm.PathRecord.Proofs.Wildcard
import OpaFm.PathRecord.Request
import OpaFm.PathRecord.Walk
import OpaFm.PerfMgr.FocusPorts
import OpaFm.PerfMgr.FreezeFrames
import OpaFm.PerfMgr.PortStats
import OpaFm.PerfMgr.Proofs.Buckets
import OpaFm.PerfMgr.Proofs.FocusPorts
import OpaFm.PerfMgr.Proofs.FreezeFrames
import OpaFm.PerfMgr.Proofs.FreezeRuns
import OpaFm.PerfMgr.Proofs.Lookup
import OpaFm.PerfMgr.Proofs.Outstanding
import OpaFm.PerfMgr.Proofs.RunningTotals
import OpaFm.PerfMgr.Proofs.StandbySync
import OpaFm.PerfMgr.Proofs.SweepHistory
import OpaFm.PerfMgr.RunningTotals
import OpaFm.PerfMgr.StandbySync
import OpaFm.Qmap.OrderedMap
import OpaFm.Qmap.Proofs.Insert
import OpaFm.Qmap.Proofs.Refine
import OpaFm.Qmap.Proofs.Remove
import OpaFm.Qmap.Proofs.TreeCells
import OpaFm.Qmap.QuickMap
import OpaFm.Rmpp.ContextPool
import OpaFm.Rmpp.Proofs.ContextPool
import OpaFm.Rmpp.Proofs.Exchange
import OpaFm.Rmpp.Proofs.ExchangeReceiver
import OpaFm.Rmpp.Proofs.PoolRuns
import OpaFm.Rmpp.Proofs.ReceiveSegments
import OpaFm.Rmpp.Proofs.Retransmit
import OpaFm.Rmpp.Proofs.Segments
import OpaFm.Rmpp.Proofs.SendWindow
import OpaFm.Rmpp.Receive
import OpaFm.Rmpp.Send
import OpaFm.Routing.AssignSls
import OpaFm.Routing.CostMatrix
import OpaFm.Routing.FatTree
import OpaFm.Routing.HostPasses
import OpaFm.Routing.Hypercube
import OpaFm.Routing.PortGroups
import OpaFm.Routing.Proofs.BalancePorts
import OpaFm.Routing.Proofs.BalanceSpread
import OpaFm.Routing.Proofs.BestPorts
import OpaFm.Routing.Proofs.CostMatrix
import OpaFm.Routing.Proofs.CycleSort
import OpaFm.Routing.Proofs.FatTree
import OpaFm.Routing.Proofs.FatTreeDeltas
import OpaFm.Routing.Proofs.HostPasses
import OpaFm.Routing.Proofs.Hypercube
import OpaFm.Routing.Proofs.InitCosts
import OpaFm.Routing.Proofs.LoadCounters
import OpaFm.Routing.Proofs.PortGroups
import OpaFm.Routing.Proofs.PrunePortgroups
import OpaFm.Routing.Proofs.SelectPorts
import OpaFm.Routing.Proofs.SetupXft
import OpaFm.Routing.SelectPorts
import OpaFm.Sa.InformInfo
import OpaFm.Sa.Proofs.InformInfo
import OpaFm.Sa.Proofs.ServiceRecord
import OpaFm.Sa.Proofs.ServiceTemplate
import OpaFm.Sa.Proofs.Subscribers
import OpaFm.Sa.Proofs.Traps
import OpaFm.Sa.ServiceRecord
import OpaFm.Sa.ServiceTemplate
import OpaFm.SmQos.Aggregate
import OpaFm.SmQos.BufferControl
import OpaFm.SmQos.Proofs.Aggregate
import OpaFm.SmQos.Proofs.Bandwidth
import OpaFm.SmQos.Proofs.BufferControl
import OpaFm.SmQos.Proofs.PortRuns
import OpaFm.SmQos.Proofs.Preemption
import OpaFm.SmQos.Proofs.ScScWrite
import OpaFm.SmQos.Proofs.ScSlMap
import OpaFm.SmQos.ScScWrite
import OpaFm.SmQos.VlArb
import OpaFm.SmQos.Vls
import OpaFm.Smp.LftBlocks
import OpaFm.Smp.PortStates
import OpaFm.Smp.Proofs.LftBlocks
import OpaFm.Smp.Proofs.PortStates
