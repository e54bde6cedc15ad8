import Awds.Lib.Bytes
import Awds.Lib.Aes
import Awds.Lib.Aead
import Awds.Lib.ShortestPath
import Awds.Lib.SortedMerge
import Awds.Lib.RingBuffer
import Awds.Lib.SortedArray
import Awds.Lib.Popcount
import Awds.Lib.RefCount
import Awds.Lib.Line
import Awds.Lib.DoublyLinked
import Awds.Lib.MarkSweep
import Awds.Lib.Substitution
import Awds.Lib.Holdings
import Awds.Lib.SlidingWindow
import Awds.Lib.Bisection
import Awds.Lib.Traced
import Awds.Packet
import Awds.Topology.State
import Awds.Topology.Operations
import Awds.Topology.Names
import Awds.Topology.MetricTables
import Awds.Crypto
import Awds.CryptoTrace
import Awds.Crypto.Aes
import Awds.Crypto.CcmMode
import Awds.Routing.State
import Awds.Routing.Operations
import Awds.Routing.Unicast
import Awds.Routing.Flow
import Awds.Pinger
import Awds.Metrics
import Awds.Routing.Neighbors
import Awds.Routing.Network
import Awds.SendQueue
import Awds.TapFrames
import Awds.PacketRefs
import Awds.Producers
import Awds.Kernel.State
import Awds.Kernel.Sockets
import Awds.Kernel.Packets
import Awds.Kernel.BufferTrace
import Awds.Proofs.Topology.Links
import Awds.Proofs.Topology.Merge
import Awds.Proofs.Topology.Cleanup
import Awds.Proofs.Topology.Routes
import Awds.Proofs.Topology.Search
import Awds.Proofs.Topology.Forwarding
import Awds.Proofs.Topology.Counterparts
import Awds.Proofs.Topology.Validity
import Awds.Proofs.Topology.Feed
import Awds.Proofs.Topology.XmlReplica
import Awds.Proofs.Topology.Weights
import Awds.Proofs.Topology.Staleness
import Awds.Proofs.Topology.Commute
import Awds.Proofs.Topology.MetricTables
import Awds.Proofs.Topology.Entries
import Awds.Proofs.Topology.Rejection
import Awds.Proofs.Topology.Names
import Awds.Proofs.Topology.Acceptance
import Awds.Proofs.Topology.OwnNode
import Awds.Proofs.Crypto.Blocks
import Awds.Proofs.Crypto.Inputs
import Awds.Proofs.Crypto.Nonces
import Awds.Proofs.Crypto.Writes
import Awds.Proofs.Routing.Flood
import Awds.Proofs.Routing.Flooding
import Awds.Proofs.Routing.Relay
import Awds.Proofs.Routing.Refusal
import Awds.Proofs.Routing.Authentication
import Awds.Proofs.Routing.TopoPacket
import Awds.Proofs.Routing.EtxWeight
import Awds.Proofs.Topology.Assertions
import Awds.Proofs.Routing.TopoSchedule
import Awds.Proofs.Routing.Neighbors
import Awds.Proofs.Routing.BeaconLists
import Awds.Proofs.Routing.HopCounts
import Awds.Proofs.Routing.LinkCheck
import Awds.Proofs.Routing.LinkLoss
import Awds.Proofs.Routing.FullTable
import Awds.Proofs.Routing.BeaconHistory
import Awds.Proofs.Routing.PathTrace
import Awds.Proofs.Routing.FlowDelivery
import Awds.Proofs.SendQueue
import Awds.Proofs.TapFrames
import Awds.Proofs.PacketRefs
import Awds.Proofs.PacketHandlers
import Awds.Proofs.PacketBalance
import Awds.Proofs.Kernel.RoutingTable
import Awds.Proofs.Kernel.RoutingIoctl
import Awds.Proofs.Kernel.Statistics
import Awds.Proofs.Kernel.Instances
import Awds.Proofs.Kernel.Interfaces
import Awds.Proofs.Kernel.Binding
import Awds.Proofs.Kernel.Locks
import Awds.Proofs.Kernel.FastPath
import Awds.Proofs.Kernel.LocalDelivery
import Awds.Proofs.Kernel.HopLimit
import Awds.Proofs.Kernel.BufferUse
import Awds.Proofs.Kernel.HeaderBounds
import Awds.Kernel.UnicastTable
import Awds.Proofs.Kernel.UnicastTable
import Awds.Proofs.Topology.WeightRange
import Awds.Proofs.Topology.CleanupTime
import Awds.Proofs.Topology.Reset
import Awds.Proofs.Routing.TopoPeriod
import Awds.Lib.WhileLoop
import Awds.Routing.Beacons
import Awds.Proofs.Routing.BeaconPeriod
import Awds.Proofs.Shell
import Awds.Proofs.SrcFilter
import Awds.Proofs.Routing.Lengths
import Awds.Proofs.Producers
import Awds.Proofs.DebugCmd
import Awds.Proofs.SqrtInt
import Awds.Proofs.PktPair
import Awds.Proofs.CancelTimer
import Awds.Proofs.Crypto.RandomBytes
import Awds.Proofs.Crypto.KeyFile
import Awds.Proofs.Crypto.Aes
import Awds.Proofs.Crypto.CcmMode
import Awds.Routing.Coverage
import Awds.Proofs.Routing.FloodCoverage
import Awds.Proofs.Crypto.RoundTrip
import Awds.Proofs.Routing.FrameDelivery
import Awds.Routing.BeaconNetwork
import Awds.Proofs.Routing.LinkHandshake
import Awds.Proofs.AbstractId
