import CloudComputing.Lib.Split
import CloudComputing.Lib.Decimal
import CloudComputing.Member
import CloudComputing.EmulNet
import CloudComputing.Addressee
import CloudComputing.NetworkBuffer
import CloudComputing.Accounting
import CloudComputing.MembershipProtocol.MP1Node
import CloudComputing.MembershipProtocol.Application
import CloudComputing.MembershipProtocol.Accuracy
import CloudComputing.MembershipProtocol.Completeness
import CloudComputing.MembershipProtocol.Join
import CloudComputing.MembershipProtocol.Swarm
import CloudComputing.MembershipProtocol.Layout
import CloudComputing.MembershipProtocol.DeliveryOrder
import CloudComputing.MembershipProtocol.Flooding
import CloudComputing.MembershipProtocol.Scenario
import CloudComputing.KeyValueStore.Quorum
import CloudComputing.KeyValueStore.Verdict
import CloudComputing.KeyValueStore.FreshRead
import CloudComputing.KeyValueStore.Deletion
import CloudComputing.KeyValueStore.Application
import CloudComputing.KeyValueStore.Recovery
import CloudComputing.KeyValueStore.RingAgreement
import CloudComputing.KeyValueStore.ConsistentHashing
import CloudComputing.KeyValueStore.ReadVerdict
import CloudComputing.KeyValueStore.SmallRing
import CloudComputing.KeyValueStore.Relabelling
import CloudComputing.KeyValueStore.Convergence
import CloudComputing.KeyValueStore.FiniteMap
import CloudComputing.KeyValueStore.StabilizationLoop
import CloudComputing.KeyValueStore.Completion
import CloudComputing.Lib.FlowTable
import CloudComputing.Lib.FlowMods
import CloudComputing.Lib.Spread
import CloudComputing.Minidc.Unicast
import CloudComputing.Minidc.Broadcast
import CloudComputing.Minidc.View
import CloudComputing.Minidc.Balance
import CloudComputing.Minidc.MemcachedStats
import CloudComputing.Minidc.ActiveReplicas
import CloudComputing.Minidc.Placement
import CloudComputing.Minidc.Partial
import CloudComputing.Minidc.Controller
import CloudComputing.Minidc.Guard
import CloudComputing.Minidc.Loads
import CloudComputing.Minidc.Paths
import CloudComputing.KeyValueStore.Startup
import CloudComputing.KeyValueStore.Neighbors
import CloudComputing.Log
