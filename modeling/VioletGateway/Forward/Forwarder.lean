import VioletGateway.Packet.Grammar
import VioletGateway.Session.Table

/-!
# The forwarder

Model of `forward.cpp`: classification of a UDP/IPv4 frame by its destination, the session lookup or
creation on the way to an upstream, the session lookup on the way back, the NAT rewrite in place and
the L2 rewrite when the next hop is resolved. The trace code that `VGW_IO_TRACE` guards is left out.

The upstream picker is a parameter with a state of its own; the neighbor table may be absent, as in
the constructor's default.
-/

set_option autoImplicit false

namespace VioletGateway

structure Upstream where
  ip : UInt32 := 0
  port : UInt16 := 0

/-- Selects an upstream for a new flow from its own state; `none` is the result `false`. -/
abbrev UpstreamPicker (σ : Type) := FlowKey → σ → Option Upstream × σ

structure VipEndpoint where
  ip : UInt32 := 0
  port : UInt16 := 0

structure ForwardConfig where
  vip : VipEndpoint := {}
  gatewayIp : UInt32 := 0
  gatewayMac : EtherAddr := fun _ => 0
  upstreamMac : EtherAddr := fun _ => 0
  clientSideMac : EtherAddr := fun _ => 0
  verifyChecksum : Bool := false
  recomputeUdpChecksum : Bool := false

inductive HandleResult
  | drop
  | txForward
  | txReverse
  | txArp
  | pendingArp
deriving DecidableEq

structure HandleOutcome where
  result : HandleResult := .drop
  /-- target address when the result is `pendingArp` -/
  arpWaitIp : UInt32 := 0
  /-- address whose waiting packets may be flushed, or `0` -/
  learnedIp : UInt32 := 0
deriving DecidableEq

/-- `pending_for`. -/
def pendingFor (nextHopIp : UInt32) : HandleOutcome :=
  { result := .pendingArp, arpWaitIp := nextHopIp }

/-- `lookup_next_hop_mac`. -/
def lookupNextHopMac (neighbors : Option NeighborTable) (ip : UInt32) (fallback : EtherAddr) :
    Option EtherAddr :=
  match neighbors with
  | some t => t.lookup ip
  | none => some fallback

/-- `flow_key_from_view`. -/
def flowKeyFromView (v : PacketView) : FrameM FlowKey := do
  let srcIp ← v.srcIp
  let dstIp ← v.dstIp
  let srcPort ← v.srcPort
  let dstPort ← v.dstPort
  return { srcIp, dstIp, srcPort, dstPort, proto := ipprotoUdp }

/-- `set_l2`. -/
def setL2 (v : PacketView) (src dst : EtherAddr) : FrameM Unit := do
  writeMac (v.eth + EtherHdr.srcAddr) src
  writeMac (v.eth + EtherHdr.dstAddr) dst

section Rewrite

variable (rte : Rte)

/-- `finish_l4_checksum`. -/
def finishL4Checksum (v : PacketView) (recomputeUdp : Bool) : FrameM Unit := do
  refreshIpv4Checksum rte v.ip
  if recomputeUdp then
    refreshUdpChecksum rte v.ip v.udp
  else
    clearUdpChecksum v.udp

/-- The rewrite that both NAT directions share: new endpoints, then the checksums. -/
def applyNat (v : PacketView) (srcIp dstIp : UInt32) (srcPort dstPort : UInt16)
    (recomputeUdp : Bool) : FrameM Unit := do
  write32 (v.ip + Ipv4Hdr.srcAddr) srcIp
  write32 (v.ip + Ipv4Hdr.dstAddr) dstIp
  write16 (v.udp + UdpHdr.srcPort) (cpuToBe16 srcPort)
  write16 (v.udp + UdpHdr.dstPort) (cpuToBe16 dstPort)
  finishL4Checksum rte v recomputeUdp

/-- `apply_forward_nat`: client to VIP becomes gateway to upstream. -/
def applyForwardNat (v : PacketView) (s : Session) (gatewayIp : UInt32) (recomputeUdp : Bool) :
    FrameM Unit :=
  applyNat rte v gatewayIp s.upstreamIp s.snatPort s.upstreamPort recomputeUdp

/-- `apply_reverse_nat`: upstream to gateway becomes VIP to client. -/
def applyReverseNat (v : PacketView) (s : Session) (recomputeUdp : Bool) : FrameM Unit :=
  applyNat rte v s.vipIp s.clientIp s.vipPort s.clientPort recomputeUdp

end Rewrite

/-- The immutable part of a forwarder. -/
structure Forwarder (σ : Type) where
  cfg : ForwardConfig
  picker : Option (UpstreamPicker σ)

/-- What a forwarder works on: the session table, the state of the picker and the neighbor table,
which it only reads. -/
structure ForwardState (σ : Type) where
  sessions : SessionTable
  pickerState : σ
  neighbors : Option NeighborTable

namespace Forwarder

variable {σ : Type} (rte : Rte) (fw : Forwarder σ)

/-- The session part of `handle_forward`: the session of the flow, touched, or a new one. -/
def sessionFor (st : ForwardState σ) (key : FlowKey) (nowMs : UInt64) :
    Option SessionPtr × ForwardState σ :=
  match st.sessions.lookupForward key with
  -- a known flow keeps its upstream; the picker is not asked
  | some p => (some p, { st with sessions := st.sessions.touch (some p) nowMs })
  | none =>
    match fw.picker with
    -- no picker was set, or it has no endpoint
    | none => (none, st)
    | some picker =>
      let picked := picker key st.pickerState
      let st := { st with pickerState := picked.2 }
      match picked.1 with
      | none => (none, st)
      | some up =>
        -- the zero address counts as no endpoint
        if up.ip = 0 then (none, st)
        else
          -- null when the SNAT ports are used up
          let r := st.sessions.create key up.ip up.port nowMs
          (r.1, { st with sessions := r.2 })

/-- The L2 part of both directions: rewrite towards a resolved next hop, or wait for it. -/
def sendVia (st : ForwardState σ) (v : PacketView) (nextHopIp : UInt32) (fallback : EtherAddr)
    (sent : HandleResult) : FrameM HandleOutcome := do
  -- the frame is already rewritten when it has to wait
  match lookupNextHopMac st.neighbors nextHopIp fallback with
  | none => return pendingFor nextHopIp
  | some dstMac =>
    setL2 v fw.cfg.gatewayMac dstMac
    return { result := sent }

/-- `handle_forward`. A session pointer obtained from the table is never dangling; the case `none` of
the heap is not reached. -/
def handleForward (st : ForwardState σ) (v : PacketView) (nowMs : UInt64) :
    FrameM (HandleOutcome × ForwardState σ) := do
  let key ← flowKeyFromView v
  let r := fw.sessionFor st key nowMs
  match r.1.bind r.2.sessions.heap with
  | none => return ({}, r.2)
  | some s =>
    applyForwardNat rte v s fw.cfg.gatewayIp fw.cfg.recomputeUdpChecksum
    let o ← fw.sendVia r.2 v s.upstreamIp fw.cfg.upstreamMac .txForward
    return (o, r.2)

/-- `handle_reverse`. -/
def handleReverse (st : ForwardState σ) (v : PacketView) (nowMs : UInt64) :
    FrameM (HandleOutcome × ForwardState σ) := do
  let key ← flowKeyFromView v
  match st.sessions.lookupReverse key with
  | none => return ({}, st)
  | some p =>
    let st := { st with sessions := st.sessions.touch (some p) nowMs }
    match st.sessions.heap p with
    | none => return ({}, st)
    | some s =>
      applyReverseNat rte v s fw.cfg.recomputeUdpChecksum
      let o ← fw.sendVia st v s.clientIp fw.cfg.clientSideMac .txReverse
      return (o, st)

/-- `handle`. -/
def handle (st : ForwardState σ) (nowMs : UInt64) : FrameM (HandleOutcome × ForwardState σ) := do
  match ← parseUdpIpv4 rte fw.cfg.verifyChecksum with
  | .error _ => return ({}, st)
  | .ok view =>
    let dst ← view.dstIp
    let dport ← view.dstPort
    if dst = fw.cfg.vip.ip ∧ dport = fw.cfg.vip.port then
      fw.handleForward rte st view nowMs
    else if dst = fw.cfg.gatewayIp then
      fw.handleReverse rte st view nowMs
    else
      return ({}, st)

/-- `finish_l2`: the L2 rewrite of a frame that was queued after NAT. -/
def finishL2 (neighbors : Option NeighborTable) (nextHopIp : UInt32) : FrameM Bool := do
  -- NAT has refreshed the checksums; they are not verified again
  match ← parseUdpIpv4 rte false with
  | .error _ => return false
  | .ok view =>
    match lookupNextHopMac neighbors nextHopIp fw.cfg.upstreamMac with
    | none => return false
    | some dstMac =>
      setL2 view fw.cfg.gatewayMac dstMac
      return true

end Forwarder

end VioletGateway
