import VioletGateway.Neighbor.Table

/-!
# Packet parsing

Model of `packet.cpp`: the Ethernet type, the ARP and the UDP/IPv4 parsers, passive learning and the
checksum refreshes. Lengths are passed to `headers_fit` as `uint16_t`, so every sum of header lengths
is narrowed to 16 bits on the way (`narrow`).

A parser returns the offsets of the headers it found; the status `ok` of the source is the `ok` case
of the result, so a view exists only for a frame that was parsed.
-/

set_option autoImplicit false

namespace VioletGateway

inductive ParseStatus
  | tooShort
  | notIpv4
  | notUdp
  | fragmented
  | badIpChecksum
  | badUdpChecksum
deriving DecidableEq

/-- Offsets of the headers and of the payload of a parsed UDP/IPv4 frame. -/
structure PacketView where
  eth : Nat
  ip : Nat
  udp : Nat
  payload : Nat
  payloadLen : UInt16
deriving DecidableEq

/-- Offsets of the headers of a parsed ARP frame. -/
structure ArpView where
  eth : Nat
  arp : Nat

@[simp] def kEthHdrLen : Nat := EtherHdr.size
@[simp] def kMinIpHdrLen : Nat := Ipv4Hdr.size
@[simp] def kUdpHdrLen : Nat := UdpHdr.size
@[simp] def kArpHdrLen : Nat := ArpHdr.size

/-- Conversion of an `int` sum to `uint16_t`. -/
def narrow (n : Nat) : UInt16 := UInt16.ofNat n

/-- `headers_fit`. -/
def headersFit (need : UInt16) : FrameM Bool := do
  return decide ((← dataLen) ≥ need)

/-- `ethertype`: the Ethernet type in host byte order, or `0`. -/
def ethertype : FrameM UInt16 := do
  if !(← headersFit (narrow kEthHdrLen)) then
    return 0
  return beToCpu16 (← read16 EtherHdr.etherType)

/-- `parse_arp`. -/
def parseArp : FrameM (Except ParseStatus ArpView) := do
  if !(← headersFit (narrow (kEthHdrLen + kArpHdrLen))) then
    return .error .tooShort
  -- the source has no status of its own for another Ethernet type
  if beToCpu16 (← read16 EtherHdr.etherType) ≠ etherTypeArp then
    return .error .notIpv4
  let arp := kEthHdrLen
  -- only Ethernet and IPv4 addresses
  if beToCpu16 (← read16 (arp + ArpHdr.hardware)) ≠ arpHrdEther ∨
      beToCpu16 (← read16 (arp + ArpHdr.protocol)) ≠ etherTypeIpv4 ∨
      (← read8 (arp + ArpHdr.hlen)) ≠ 6 ∨ (← read8 (arp + ArpHdr.plen)) ≠ 4 then
    return .error .tooShort
  return .ok { eth := 0, arp := arp }

/-- First octet of an address in network byte order. -/
def firstOctet (ip : UInt32) : UInt32 := (beToCpu32 ip >>> 24) &&& 0xff

/-- `passive_learn_ipv4`. -/
def passiveLearnIpv4 (neighbors : NeighborTable) (nowMs : UInt64) : FrameM NeighborTable := do
  if !(← headersFit (narrow (kEthHdrLen + kMinIpHdrLen))) then
    return neighbors
  if beToCpu16 (← read16 EtherHdr.etherType) ≠ etherTypeIpv4 then
    return neighbors
  let srcIp ← read32 (kEthHdrLen + Ipv4Hdr.srcAddr)
  if srcIp = 0 then
    return neighbors
  -- multicast and reserved addresses are not learned
  if firstOctet srcIp ≥ 224 then
    return neighbors
  return neighbors.learn srcIp (← readMac EtherHdr.srcAddr) nowMs

section Checksums

variable (rte : Rte)

/-- `udp_checksum_ok`: clears the checksum field, recomputes it and restores it. -/
def udpChecksumOk (ip udp : Nat) : FrameM Bool := do
  -- the sender did not compute a checksum
  if (← read16 (udp + UdpHdr.dgramCksum)) = 0 then
    return true
  let saved ← read16 (udp + UdpHdr.dgramCksum)
  write16 (udp + UdpHdr.dgramCksum) 0
  let calcUdp ← rteIpv4UdptcpCksum rte ip udp
  write16 (udp + UdpHdr.dgramCksum) saved
  if saved = calcUdp then
    return true
  -- zero and all ones are the same value in one's complement
  return (saved == 0xffff && calcUdp == 0) || (saved == 0 && calcUdp == 0xffff)

/-- The checksum block of `parse_udp_ipv4`. -/
def verifyChecksums (view : PacketView) : FrameM (Except ParseStatus PacketView) := do
  let savedIp ← read16 (view.ip + Ipv4Hdr.hdrChecksum)
  write16 (view.ip + Ipv4Hdr.hdrChecksum) 0
  let calcIp ← rteIpv4Cksum rte view.ip
  write16 (view.ip + Ipv4Hdr.hdrChecksum) savedIp
  if savedIp ≠ calcIp then
    return .error .badIpChecksum
  if !(← udpChecksumOk rte view.ip view.udp) then
    return .error .badUdpChecksum
  return .ok view

/-- `parse_udp_ipv4`. -/
def parseUdpIpv4 (verifyCksum : Bool) : FrameM (Except ParseStatus PacketView) := do
  if !(← headersFit (narrow (kEthHdrLen + kMinIpHdrLen + kUdpHdrLen))) then
    return .error .tooShort
  if beToCpu16 (← read16 EtherHdr.etherType) ≠ etherTypeIpv4 then
    return .error .notIpv4
  let ip := kEthHdrLen
  let versionIhl ← read8 (ip + Ipv4Hdr.versionIhl)
  let ihl := ihlBytes versionIhl
  if versionIhl >>> 4 ≠ 4 ∨ ihl < kMinIpHdrLen then
    return .error .notIpv4
  if !(← headersFit (narrow (kEthHdrLen + ihl + kUdpHdrLen))) then
    return .error .tooShort
  let frag := beToCpu16 (← read16 (ip + Ipv4Hdr.fragmentOffset))
  -- more fragments follow, or this is not the first one
  if frag &&& ipv4HdrMfFlag ≠ 0 ∨ frag &&& ipv4HdrOffsetMask ≠ 0 then
    return .error .fragmented
  if (← read8 (ip + Ipv4Hdr.nextProtoId)) ≠ ipprotoUdp then
    return .error .notUdp
  let udp := kEthHdrLen + ihl
  let udpLen := beToCpu16 (← read16 (udp + UdpHdr.dgramLen))
  if udpLen.toNat < kUdpHdrLen then
    return .error .tooShort
  -- the sum is computed as an `int` and narrowed by the call
  if !(← headersFit (narrow (kEthHdrLen + ihl + udpLen.toNat))) then
    return .error .tooShort
  let view : PacketView :=
    { eth := 0
      ip := ip
      udp := udp
      payload := udp + kUdpHdrLen
      payloadLen := narrow (udpLen.toNat - kUdpHdrLen) }
  if verifyCksum then
    verifyChecksums rte view
  else
    return .ok view

/-- `refresh_ipv4_checksum`. -/
def refreshIpv4Checksum (ip : Nat) : FrameM Unit := do
  write16 (ip + Ipv4Hdr.hdrChecksum) 0
  write16 (ip + Ipv4Hdr.hdrChecksum) (← rteIpv4Cksum rte ip)

/-- `refresh_udp_checksum`. -/
def refreshUdpChecksum (ip udp : Nat) : FrameM Unit := do
  write16 (udp + UdpHdr.dgramCksum) 0
  write16 (udp + UdpHdr.dgramCksum) (← rteIpv4UdptcpCksum rte ip udp)
  -- a checksum of zero is sent as all ones
  if (← read16 (udp + UdpHdr.dgramCksum)) = 0 then
    write16 (udp + UdpHdr.dgramCksum) 0xffff

/-- `clear_udp_checksum`. -/
def clearUdpChecksum (udp : Nat) : FrameM Unit := write16 (udp + UdpHdr.dgramCksum) 0

end Checksums

/-! ## The fields of a view -/

namespace PacketView

def srcIp (v : PacketView) : FrameM UInt32 := read32 (v.ip + Ipv4Hdr.srcAddr)

def dstIp (v : PacketView) : FrameM UInt32 := read32 (v.ip + Ipv4Hdr.dstAddr)

def srcPort (v : PacketView) : FrameM UInt16 := do
  return beToCpu16 (← read16 (v.udp + UdpHdr.srcPort))

def dstPort (v : PacketView) : FrameM UInt16 := do
  return beToCpu16 (← read16 (v.udp + UdpHdr.dstPort))

end PacketView

end VioletGateway
