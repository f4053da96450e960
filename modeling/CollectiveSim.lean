import CollectiveSim.Rdma.Delivery
import CollectiveSim.Rdma.NoAck
import CollectiveSim.Rdma.NoStall
import CollectiveSim.Rdma.Window
import CollectiveSim.Rdma.SendCompletion
import CollectiveSim.Rdma.LosslessCompletion
import CollectiveSim.Rdma.NackSuppression
import CollectiveSim.Rdma.ChunkDivision
import CollectiveSim.Rdma.RoundRobin
import CollectiveSim.Rdma.RateBounds
import CollectiveSim.Rdma.HopDelta
import CollectiveSim.Fabric.Identity
import CollectiveSim.Fabric.Forwarding
import CollectiveSim.Fabric.Metrics
import CollectiveSim.Fabric.Nic
import CollectiveSim.Header.Telemetry
import CollectiveSim.Msccl.Wakeup
import CollectiveSim.Msccl.Progress
import CollectiveSim.Msccl.ReceiveOrder
import CollectiveSim.Msccl.Completion
import CollectiveSim.Msccl.IndexSafety
import CollectiveSim.Msccl.Confluence
import CollectiveSim.Msccl.BufferBounds
import CollectiveSim.Msccl.ByteCount
import CollectiveSim.Msccl.BlockLoop
import CollectiveSim.Msccl.PendingSends
import CollectiveSim.Msccl.ParseErrors
import CollectiveSim.Msccl.ReceiveSockets
import CollectiveSim.Msccl.Fragmentation
import CollectiveSim.Msccl.Pacing
import CollectiveSim.Switch.Occupancy
import CollectiveSim.Switch.Lossless
import CollectiveSim.Switch.BroadcomQueue
import CollectiveSim.Switch.Pairing
import CollectiveSim.Switch.PfcLink
import CollectiveSim.Switch.Configure
import CollectiveSim.Mtp.Causality
import CollectiveSim.Mtp.Independence
import CollectiveSim.Mtp.TieOrder
import CollectiveSim.Mtp.Partition
import CollectiveSim.Mtp.DefaultSimulator
import CollectiveSim.Mtp.Pending
import CollectiveSim.Mtp.Agreement
import CollectiveSim.P4.Egress
import CollectiveSim.Analysis.FlowKeys
import CollectiveSim.Trace.Record
import CollectiveSim.Topology.Elaboration
import CollectiveSim.Topology.Arithmetic
import CollectiveSim.Topology.Naming
import CollectiveSim.Topology.PeerDevices
