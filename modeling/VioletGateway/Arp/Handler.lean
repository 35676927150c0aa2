import VioletGateway.Forward.Forwarder

/-!
# The ARP handler

Model of `arp.cpp`: requests for the gateway or the VIP are turned into replies in place, replies
are learned, and a probe is written into a newly allocated buffer. The handler is always given a
neighbor table, as in `init_services`.
-/

set_option autoImplicit false

namespace VioletGateway

open Support

structure ArpConfig where
  gatewayIp : UInt32 := 0
  vipIp : UInt32 := 0
  gatewayMac : EtherAddr := fun _ => 0

structure ArpOutcome where
  result : HandleResult := .drop
  /-- address learned from an ARP reply, or `0` -/
  learnedIp : UInt32 := 0
deriving DecidableEq

/-- `kArpFrameLen`. -/
def kArpFrameLen : UInt16 := narrow (EtherHdr.size + ArpHdr.size)

/-- `zero_mac`. -/
def zeroMac : EtherAddr := fun _ => 0

/-- `is_zero_mac`. -/
def isZeroMac (mac : EtherAddr) : Bool := decide (∀ i, mac i = 0)

/-- `fill_arp_hdr`. -/
def fillArpHdr (arp : Nat) : FrameM Unit := do
  write16 (arp + ArpHdr.hardware) (cpuToBe16 arpHrdEther)
  write16 (arp + ArpHdr.protocol) (cpuToBe16 etherTypeIpv4)
  write8 (arp + ArpHdr.hlen) 6
  write8 (arp + ArpHdr.plen) 4

/-- `rte_pktmbuf_append`: extends the data part by `len` bytes if the buffer has room for them. -/
def pktmbufAppend (len : UInt16) : FrameM Bool := ⟨fun f =>
  if f.dataLen.toNat + len.toNat ≤ f.room then ⟨true, { f with dataLen := f.dataLen + len }, []⟩
  else ⟨false, f, []⟩⟩

namespace ArpConfig

variable (cfg : ArpConfig)

/-- `is_proxy_target`. -/
def isProxyTarget (ip : UInt32) : Bool := ip == cfg.gatewayIp || ip == cfg.vipIp

/-- `make_reply`. -/
def makeReply (v : ArpView) (replyIp : UInt32) : FrameM HandleResult := do
  -- the sender of the request is the target of the reply
  writeMac (v.eth + EtherHdr.dstAddr) (← readMac (v.eth + EtherHdr.srcAddr))
  writeMac (v.eth + EtherHdr.srcAddr) cfg.gatewayMac
  write16 (v.arp + ArpHdr.opcode) (cpuToBe16 arpOpReply)
  writeMac (v.arp + ArpHdr.tha) (← readMac (v.arp + ArpHdr.sha))
  writeMac (v.arp + ArpHdr.sha) cfg.gatewayMac
  let senderIp ← read32 (v.arp + ArpHdr.sip)
  write32 (v.arp + ArpHdr.sip) replyIp
  write32 (v.arp + ArpHdr.tip) senderIp
  -- padding is cut off
  setDataLen kArpFrameLen
  return .txArp

/-- `handle_request`. -/
def handleRequest (v : ArpView) : FrameM HandleResult := do
  let targetIp ← read32 (v.arp + ArpHdr.tip)
  -- the gateway answers for itself and for the VIP only
  if !cfg.isProxyTarget targetIp then
    return .drop
  cfg.makeReply v targetIp

/-- `handle_reply`: the frame is consumed, its sender learned unless its addresses are zero. -/
def handleReply (v : ArpView) (neighbors : NeighborTable) (nowMs : UInt64) :
    FrameM (ArpOutcome × NeighborTable) := do
  let ip ← read32 (v.arp + ArpHdr.sip)
  if ip = 0 then
    return ({}, neighbors)
  let sha ← readMac (v.arp + ArpHdr.sha)
  if isZeroMac sha then
    return ({}, neighbors)
  return ({ learnedIp := ip }, neighbors.learn ip sha nowMs)

/-- `ArpHandler::handle`. -/
def handle (neighbors : NeighborTable) (nowMs : UInt64) : FrameM (ArpOutcome × NeighborTable) := do
  match ← parseArp with
  | .error _ => return ({}, neighbors)
  | .ok v =>
    let opcode := beToCpu16 (← read16 (v.arp + ArpHdr.opcode))
    if opcode = arpOpRequest then
      let result ← cfg.handleRequest v
      return ({ result := result }, neighbors)
    else if opcode = arpOpReply then
      handleReply v neighbors nowMs
    else
      return ({}, neighbors)

/-- The part of `make_request` after the allocation, on a buffer without data; `false` when the
buffer has no room for the frame. -/
def makeRequest (targetIp : UInt32) : FrameM Bool := do
  if !(← pktmbufAppend kArpFrameLen) then
    return false
  -- the two `memset`s of the source, then the fields
  writeBlock 0 fun _ : Fin EtherHdr.size => 0
  writeMac EtherHdr.srcAddr cfg.gatewayMac
  writeMac EtherHdr.dstAddr fun _ => 0xff
  write16 EtherHdr.etherType (cpuToBe16 etherTypeArp)
  let arp := EtherHdr.size
  writeBlock arp fun _ : Fin ArpHdr.size => 0
  fillArpHdr arp
  write16 (arp + ArpHdr.opcode) (cpuToBe16 arpOpRequest)
  writeMac (arp + ArpHdr.sha) cfg.gatewayMac
  write32 (arp + ArpHdr.sip) cfg.gatewayIp
  writeMac (arp + ArpHdr.tha) zeroMac
  write32 (arp + ArpHdr.tip) targetIp
  setDataLen kArpFrameLen
  return true

end ArpConfig

end VioletGateway
