import VioletGateway.Arp.Handler
import VioletGateway.Forward.Handle
import VioletGateway.Upstream.Table

/-!
# The services of the gateway

Model of the `VioletGW` object after `init_services`: the forwarder and the ARP handler with their
configuration, the session, upstream and neighbor tables, and the packets that wait for an address
to be resolved. `VioletGW.handle` is the treatment of one frame.

The settings that `init_services` takes from `config.hpp` are a parameter (`ServiceConfig`); `lab` are
the values in the source.
-/

set_option autoImplicit false

namespace VioletGateway

open Support

/-- What `init_services` reads from `config.hpp`. -/
structure ServiceConfig where
  vip : VipEndpoint
  gatewayIp : UInt32
  gatewayMac : EtherAddr
  upstreamNhMac : EtherAddr
  clientNhMac : EtherAddr
  upstream0 : UpstreamEndpoint
  balancePolicy : BalancePolicy
  sessionIdleTimeoutMs : UInt64
  arpEntryTimeoutMs : UInt64
  /-- the two flags of `ForwardConfig`, which `init_services` leaves at their defaults -/
  verifyChecksum : Bool := false
  recomputeUdpChecksum : Bool := false

/-- The values of `config.hpp`. -/
def ServiceConfig.lab : ServiceConfig where
  vip := { ip := Config.ipv4From Config.vipIpOctets, port := Config.vipPort }
  gatewayIp := Config.ipv4From Config.gatewayIpOctets
  gatewayMac := Config.gatewayMac
  upstreamNhMac := Config.upstreamNhMac
  clientNhMac := Config.clientNhMac
  upstream0 := { ip := Config.ipv4From Config.upstream0IpOctets, port := Config.upstream0Port }
  balancePolicy := .mod
  sessionIdleTimeoutMs := Config.sessionIdleTimeoutMs
  arpEntryTimeoutMs := Config.arpEntryTimeoutMs

structure ArpPendingEntry where
  m : Mbuf
  enqueuedMs : UInt64

/-- The gateway object after `init_services`. -/
structure VioletGW where
  fcfg : ForwardConfig
  acfg : ArpConfig
  sessions : SessionTable
  upstreams : UpstreamTable
  neighbors : NeighborTable
  arpPending : AList fun _ : UInt32 => List ArpPendingEntry
  arpProbeLastMs : AList fun _ : UInt32 => UInt64

/-- The picker that `init_services` installs. -/
def upstreamPicker : UpstreamPicker UpstreamTable := fun key t =>
  let r := t.pick key
  (r.1.map fun ep => { ip := ep.ip, port := ep.port }, r.2)

/-- `ipv4_src_be`: the source address of an IPv4 frame, or `0`. -/
def ipv4SrcBe : FrameM UInt32 := do
  if (← dataLen).toNat < EtherHdr.size + Ipv4Hdr.size then
    return 0
  if beToCpu16 (← read16 EtherHdr.etherType) ≠ etherTypeIpv4 then
    return 0
  read32 (EtherHdr.size + Ipv4Hdr.srcAddr)

namespace VioletGW

/-- `init_services`. `shm` is what the first `poll_apply` finds published; without it the seed of the
configuration is installed. -/
def initServices (cfg : ServiceConfig) (shm : Option CpUpdate) : VioletGW where
  fcfg :=
    { vip := cfg.vip
      gatewayIp := cfg.gatewayIp
      gatewayMac := cfg.gatewayMac
      upstreamMac := cfg.upstreamNhMac
      clientSideMac := cfg.clientNhMac
      verifyChecksum := cfg.verifyChecksum
      recomputeUdpChecksum := cfg.recomputeUdpChecksum }
  acfg := { gatewayIp := cfg.gatewayIp, vipIp := cfg.vip.ip, gatewayMac := cfg.gatewayMac }
  sessions := .new cfg.gatewayIp cfg.sessionIdleTimeoutMs
  upstreams := UpstreamTable.apply {} (shm.getD ⟨cfg.balancePolicy, [cfg.upstream0]⟩)
  neighbors := (NeighborTable.new cfg.arpEntryTimeoutMs).seed cfg.upstream0.ip cfg.upstreamNhMac
  arpPending := ∅
  arpProbeLastMs := ∅

/-- The end of `init`: both handlers take the MAC address of the NIC. -/
def setGatewayMac (g : VioletGW) (nicMac : EtherAddr) : VioletGW :=
  { g with
    fcfg := { g.fcfg with gatewayMac := nicMac }
    acfg := { g.acfg with gatewayMac := nicMac } }

/-- `init`; `nicMac` is absent when the port has no entry in the table of NIC addresses. -/
def init (cfg : ServiceConfig) (shm : Option CpUpdate) (nicMac : Option EtherAddr) : VioletGW :=
  match nicMac with
  -- the MAC address of the NIC replaces the configured one
  | some mac => (initServices cfg shm).setGatewayMac mac
  | none => initServices cfg shm

/-- The forwarder of the gateway. -/
def forwarder (g : VioletGW) : Forwarder UpstreamTable := ⟨g.fcfg, some upstreamPicker⟩

/-- The state that the forwarder works on. -/
def forwardState (g : VioletGW) : ForwardState UpstreamTable :=
  ⟨g.sessions, g.upstreams, some g.neighbors⟩

/-- The ARP part of `handle`. -/
def handleArp (g : VioletGW) (nowMs : UInt64) : FrameM (HandleOutcome × VioletGW) := do
  let r ← g.acfg.handle g.neighbors nowMs
  return ({ result := r.1.result, learnedIp := r.1.learnedIp }, { g with neighbors := r.2 })

/-- The IPv4 part of `handle`. The address is read once for the log line and once after the forwarder
has handled the frame. -/
def handleIpv4 (rte : Rte) (g : VioletGW) (nowMs : UInt64) : FrameM (HandleOutcome × VioletGW) := do
  let g := { g with neighbors := ← passiveLearnIpv4 g.neighbors nowMs }
  -- the log line of passive learning
  let _ ← ipv4SrcBe
  let r ← g.forwarder.handle rte g.forwardState nowMs
  let g := { g with sessions := r.2.sessions, upstreams := r.2.pickerState }
  -- the source address of the frame as the forwarder has left it
  let srcIp ← ipv4SrcBe
  if srcIp ≠ 0 ∧ (g.arpPending.lookup srcIp).isSome then
    return ({ r.1 with learnedIp := srcIp }, g)
  else
    return (r.1, g)

/-- `handle`. -/
def handle (rte : Rte) (g : VioletGW) (nowMs : UInt64) : FrameM (HandleOutcome × VioletGW) := do
  let etype ← ethertype
  if etype = etherTypeArp then
    g.handleArp nowMs
  else if etype = etherTypeIpv4 then
    g.handleIpv4 rte nowMs
  else
    return ({}, g)

/-- `poll_control`. -/
def pollControl (g : VioletGW) (update : Option CpUpdate) : VioletGW :=
  match update with
  | some u => { g with upstreams := g.upstreams.apply u }
  | none => g

/-- `expire_sessions`. -/
def expireSessions (g : VioletGW) (nowMs : UInt64) : VioletGW :=
  { g with sessions := (g.sessions.expire nowMs).2 }

/-- `expire_neighbors`. -/
def expireNeighbors (g : VioletGW) (nowMs : UInt64) : VioletGW :=
  { g with neighbors := g.neighbors.expire nowMs }

end VioletGW

end VioletGateway
