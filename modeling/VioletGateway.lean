import VioletGateway.Mbuf
import VioletGateway.Session.Capacity
import VioletGateway.Session.History
import VioletGateway.Session.Expire
import VioletGateway.Neighbor.Table
import VioletGateway.Neighbor.History
import VioletGateway.Upstream.RoundRobin
import VioletGateway.Upstream.HashSpread
import VioletGateway.Packet.Grammar
import VioletGateway.Gateway.Bounds
import VioletGateway.Gateway.Neighbors
import VioletGateway.Gateway.PassiveLearning
import VioletGateway.Gateway.Loop
import VioletGateway.Gateway.TxBound
import VioletGateway.Gateway.PendingPath
import VioletGateway.Gateway.PendingQueue
import VioletGateway.Gateway.Clock
import VioletGateway.Gateway.Freshness
import VioletGateway.Gateway.Refinement
import VioletGateway.Gateway.Retention
import VioletGateway.Gateway.Egress
import VioletGateway.Gateway.Flush
import VioletGateway.Gateway.Probe
import VioletGateway.Gateway.TxRoom
import VioletGateway.Gateway.ArpExchange
import VioletGateway.Gateway.UdpCoverage
import VioletGateway.Gateway.Trace
import VioletGateway.Forward.Wire
import VioletGateway.Forward.Drop
import VioletGateway.Forward.Activity
import VioletGateway.Forward.Verify
import VioletGateway.Datapath.Separator
import VioletGateway.Datapath.LcorePairs
import VioletGateway.Datapath.Startup
import VioletGateway.Io.RxProgress
import VioletGateway.Control.Command
import VioletGateway.Control.Convergence
import VioletGateway.Control.Truncation
import VioletGateway.Util.AddressText
import VioletGateway.Util.Crc32
