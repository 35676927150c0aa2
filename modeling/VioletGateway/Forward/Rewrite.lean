import VioletGateway.Forward.Forwarder

/-!
# What the rewrites do to a frame

The NAT rewrite and the L2 rewrite write to fixed places of the headers. None of them overlaps a
field that the parser looks at, so a rewritten frame is parsed as before (`SameShape`). After the NAT
rewrite the frame carries the new endpoints (`endpoints_natted`); the L2 rewrite
changes the two MAC addresses and is absorbed by a later one (`withL2_withL2`).
-/

set_option autoImplicit false

namespace VioletGateway

open Support

namespace Frame

/-! ## The endpoints of a frame -/

section Endpoints

variable (f : Frame)

def srcIp : UInt32 := f.u32 (kEthHdrLen + Ipv4Hdr.srcAddr)

def dstIp : UInt32 := f.u32 (kEthHdrLen + Ipv4Hdr.dstAddr)

def srcPort : UInt16 := beToCpu16 (f.u16 (kEthHdrLen + f.ihl + UdpHdr.srcPort))

def dstPort : UInt16 := beToCpu16 (f.u16 (kEthHdrLen + f.ihl + UdpHdr.dstPort))

/-- The 5-tuple of the frame. -/
def flowKey : FlowKey where
  srcIp := f.srcIp
  dstIp := f.dstIp
  srcPort := f.srcPort
  dstPort := f.dstPort
  proto := ipprotoUdp

end Endpoints

/-! ## Frames that are parsed alike -/

/-- `g` agrees with `f` on every field that the parser looks at. -/
structure SameShape (f g : Frame) : Prop where
  dataLen : g.dataLen = f.dataLen
  etherType : g.etherType = f.etherType
  versionIhl : g.versionIhl = f.versionIhl
  fragmentOffset : g.fragmentOffset = f.fragmentOffset
  nextProtoId : g.nextProtoId = f.nextProtoId
  dgramLen : g.dgramLen = f.dgramLen

namespace SameShape

variable {f g h : Frame}

theorem refl (f : Frame) : SameShape f f := ⟨rfl, rfl, rfl, rfl, rfl, rfl⟩

theorem trans (h₁ : SameShape f g) (h₂ : SameShape g h) : SameShape f h :=
  ⟨h₂.dataLen.trans h₁.dataLen, h₂.etherType.trans h₁.etherType,
    h₂.versionIhl.trans h₁.versionIhl, h₂.fragmentOffset.trans h₁.fragmentOffset,
    h₂.nextProtoId.trans h₁.nextProtoId, h₂.dgramLen.trans h₁.dgramLen⟩

theorem ihl (h : SameShape f g) : g.ihl = f.ihl := congrArg ihlBytes h.versionIhl

theorem checked (h : SameShape f g) (hf : f.Checked) : g.Checked where
  minLen := by
    rw [h.dataLen]
    exact hf.minLen
  ether := h.etherType.trans hf.ether
  version := by
    rw [h.versionIhl]
    exact hf.version
  ihl_ge := by
    rw [h.ihl]
    exact hf.ihl_ge
  hdrLen := by
    rw [h.ihl, h.dataLen]
    exact hf.hdrLen
  notMore := by
    rw [h.fragmentOffset]
    exact hf.notMore
  notFragment := by
    rw [h.fragmentOffset]
    exact hf.notFragment
  proto := h.nextProtoId.trans hf.proto
  dgram_ge := by
    rw [h.dgramLen]
    exact hf.dgram_ge

theorem accepts (h : SameShape f g) (hf : f.Accepts) : g.Accepts := by
  refine ⟨h.checked hf.1, ?_⟩
  rw [h.ihl, h.dgramLen, h.dataLen]
  exact hf.2

end SameShape

/-- The blocks that the rewrites may replace: the MAC addresses, the IPv4 header from its checksum
on, the UDP ports and the UDP checksum. -/
def Rewritable (f : Frame) (off n : Nat) : Prop :=
  off + n ≤ EtherHdr.etherType ∨
    (kEthHdrLen + Ipv4Hdr.hdrChecksum ≤ off ∧ off + n ≤ kEthHdrLen + f.ihl + UdpHdr.dgramLen) ∨
      kEthHdrLen + f.ihl + UdpHdr.dgramCksum ≤ off

theorem sameShape_put {f : Frame} (hihl : kMinIpHdrLen ≤ f.ihl) {off n : Nat}
    (bs : Fin n → UInt8) (h : f.Rewritable off n) : SameShape f (f.put off bs) := by
  simp only [Rewritable, EtherHdr.etherType, kEthHdrLen, EtherHdr.size, Ipv4Hdr.hdrChecksum,
    UdpHdr.dgramLen, UdpHdr.dgramCksum] at h
  simp only [kMinIpHdrLen, Ipv4Hdr.size] at hihl
  -- first the field that the position of the UDP header depends on
  have hversion : (f.put off bs).versionIhl = f.versionIhl := by
    apply u8_put
    simp only [kEthHdrLen, EtherHdr.size, Ipv4Hdr.versionIhl]
    omega
  constructor
  · rfl
  · refine congrArg beToCpu16 (u16_put ?_)
    simp only [EtherHdr.etherType]
    omega
  · exact hversion
  · refine congrArg beToCpu16 (u16_put ?_)
    simp only [kEthHdrLen, EtherHdr.size, Ipv4Hdr.fragmentOffset]
    omega
  · apply u8_put
    simp only [kEthHdrLen, EtherHdr.size, Ipv4Hdr.nextProtoId]
    omega
  · have hihl' : (f.put off bs).ihl = f.ihl := congrArg ihlBytes hversion
    rw [dgramLen, hihl']
    refine congrArg beToCpu16 (u16_put ?_)
    simp only [kEthHdrLen, EtherHdr.size, UdpHdr.dgramLen]
    omega

/-- Replacing a rewritable block once more keeps the shape. -/
theorem SameShape.put {f g : Frame} (h : SameShape f g) (hihl : kMinIpHdrLen ≤ f.ihl) {off n : Nat}
    (bs : Fin n → UInt8) (hoff : f.Rewritable off n) : SameShape f (g.put off bs) := by
  have hihl' : kMinIpHdrLen ≤ g.ihl := by
    rw [h.ihl]
    exact hihl
  refine h.trans (sameShape_put hihl' bs ?_)
  rw [Rewritable, h.ihl]
  exact hoff

section RewritableBlocks

variable {f : Frame} (hihl : kMinIpHdrLen ≤ f.ihl)

theorem rewritable_l2 {off : Nat} (h : off + 6 ≤ EtherHdr.etherType) : f.Rewritable off 6 := Or.inl h

include hihl in
theorem rewritable_udp (off : Nat) (h : off + 2 ≤ UdpHdr.dgramLen) :
    f.Rewritable (kEthHdrLen + f.ihl + off) 2 := by
  simp only [Rewritable, kEthHdrLen, EtherHdr.size, Ipv4Hdr.hdrChecksum, UdpHdr.dgramLen,
    kMinIpHdrLen, Ipv4Hdr.size] at *
  omega

include hihl in
theorem rewritable_ip (off : Nat) {n : Nat} (h : Ipv4Hdr.hdrChecksum ≤ off) (h' : off + n ≤ Ipv4Hdr.size) :
    f.Rewritable (kEthHdrLen + off) n := by
  simp only [Rewritable, kEthHdrLen, EtherHdr.size, Ipv4Hdr.hdrChecksum, UdpHdr.dgramLen,
    kMinIpHdrLen, Ipv4Hdr.size] at *
  omega

theorem rewritable_udpCksum : f.Rewritable (kEthHdrLen + f.ihl + UdpHdr.dgramCksum) 2 :=
  Or.inr (Or.inr (Nat.le_refl _))

end RewritableBlocks

/-! ## The NAT rewrite -/

/-- New endpoints and new checksums: the blocks that the NAT rewrite replaces. -/
def putEndpoints (f : Frame) (srcIp dstIp : UInt32) (srcPort dstPort ipCksum udpCksum : UInt16) :
    Frame :=
  (((((f.put (kEthHdrLen + Ipv4Hdr.srcAddr) (le32 srcIp)).put
    (kEthHdrLen + Ipv4Hdr.dstAddr) (le32 dstIp)).put
    (kEthHdrLen + f.ihl + UdpHdr.srcPort) (le16 (cpuToBe16 srcPort))).put
    (kEthHdrLen + f.ihl + UdpHdr.dstPort) (le16 (cpuToBe16 dstPort))).put
    (kEthHdrLen + Ipv4Hdr.hdrChecksum) (le16 ipCksum)).put
    (kEthHdrLen + f.ihl + UdpHdr.dgramCksum) (le16 udpCksum)

/-- The frame after the NAT rewrite of its parsed view. -/
def natted (f : Frame) (rte : Rte) (srcIp dstIp : UInt32) (srcPort dstPort : UInt16)
    (recomputeUdp : Bool) : Frame :=
  ((applyNat rte f.view srcIp dstIp srcPort dstPort recomputeUdp).run f).mem

theorem refreshIpv4Checksum_mem (rte : Rte) (ip : Nat) (f : Frame) :
    ∃ x, ((refreshIpv4Checksum rte ip).run f).mem = f.put (ip + Ipv4Hdr.hdrChecksum) (le16 x) := by
  simp only [refreshIpv4Checksum, Traced.bind_mem, write16_mem, rteIpv4Cksum_mem, put_put_self]
  exact ⟨_, rfl⟩

theorem refreshUdpChecksum_mem (rte : Rte) (ip udp : Nat) (f : Frame) :
    ∃ x, ((refreshUdpChecksum rte ip udp).run f).mem = f.put (udp + UdpHdr.dgramCksum) (le16 x) := by
  simp only [refreshUdpChecksum, Traced.bind_mem, Traced.ite_mem, write16_mem, Traced.pure_mem,
    rteIpv4UdptcpCksum_mem, put_put_self, read16_mem]
  split
  · exact ⟨_, rfl⟩
  · exact ⟨_, rfl⟩

theorem finishL4Checksum_mem (rte : Rte) (v : PacketView) (recompute : Bool) (f : Frame) :
    ∃ x y, ((finishL4Checksum rte v recompute).run f).mem =
      (f.put (v.ip + Ipv4Hdr.hdrChecksum) (le16 x)).put (v.udp + UdpHdr.dgramCksum) (le16 y) := by
  -- the values of the checksums do not matter here, only where they are written
  obtain ⟨x, hx⟩ := refreshIpv4Checksum_mem rte v.ip f
  rw [finishL4Checksum, Traced.bind_mem, hx]
  cases recompute with
  | true =>
      obtain ⟨y, hy⟩ := refreshUdpChecksum_mem rte v.ip v.udp
        (f.put (v.ip + Ipv4Hdr.hdrChecksum) (le16 x))
      exact ⟨x, y, hy⟩
  | false => exact ⟨x, 0, rfl⟩

/-- The NAT rewrite is a change of endpoints and checksums. -/
theorem natted_eq (f : Frame) (rte : Rte) (srcIp dstIp : UInt32) (srcPort dstPort : UInt16)
    (recompute : Bool) :
    ∃ x y, f.natted rte srcIp dstIp srcPort dstPort recompute =
      f.putEndpoints srcIp dstIp srcPort dstPort x y := by
  rw [natted, applyNat]
  simp only [Traced.bind_mem, write32_mem, write16_mem]
  exact finishL4Checksum_mem rte f.view recompute _

section PutEndpoints

variable {f : Frame} (hihl : kMinIpHdrLen ≤ f.ihl) (srcIp dstIp : UInt32)
  (srcPort dstPort x y : UInt16)

include hihl

theorem sameShape_putEndpoints :
    SameShape f (f.putEndpoints srcIp dstIp srcPort dstPort x y) := by
  have h₁ := (SameShape.refl f).put hihl (le32 srcIp)
    (rewritable_ip hihl Ipv4Hdr.srcAddr (by decide) (by decide))
  have h₂ := h₁.put hihl (le32 dstIp)
    (rewritable_ip hihl Ipv4Hdr.dstAddr (by decide) (by decide))
  have h₃ := h₂.put hihl (le16 (cpuToBe16 srcPort))
    (rewritable_udp hihl UdpHdr.srcPort (by decide))
  have h₄ := h₃.put hihl (le16 (cpuToBe16 dstPort))
    (rewritable_udp hihl UdpHdr.dstPort (by decide))
  have h₅ := h₄.put hihl (le16 x)
    (rewritable_ip hihl Ipv4Hdr.hdrChecksum (by decide) (by decide))
  exact h₅.put hihl (le16 y) rewritable_udpCksum

theorem srcIp_putEndpoints : (f.putEndpoints srcIp dstIp srcPort dstPort x y).srcIp = srcIp := by
  simp only [kMinIpHdrLen, Ipv4Hdr.size] at hihl
  rw [Frame.srcIp, putEndpoints]
  simp only [kEthHdrLen, EtherHdr.size, Ipv4Hdr.hdrChecksum, Ipv4Hdr.srcAddr, Ipv4Hdr.dstAddr,
    UdpHdr.srcPort, UdpHdr.dstPort, UdpHdr.dgramCksum]
  rw [u32_put (by omega), u32_put (by omega), u32_put (by omega), u32_put (by omega),
    u32_put (by omega), u32_put_self]

theorem dstIp_putEndpoints : (f.putEndpoints srcIp dstIp srcPort dstPort x y).dstIp = dstIp := by
  simp only [kMinIpHdrLen, Ipv4Hdr.size] at hihl
  rw [Frame.dstIp, putEndpoints]
  simp only [kEthHdrLen, EtherHdr.size, Ipv4Hdr.hdrChecksum, Ipv4Hdr.srcAddr, Ipv4Hdr.dstAddr,
    UdpHdr.srcPort, UdpHdr.dstPort, UdpHdr.dgramCksum]
  rw [u32_put (by omega), u32_put (by omega), u32_put (by omega), u32_put (by omega),
    u32_put_self]

theorem srcPort_putEndpoints :
    (f.putEndpoints srcIp dstIp srcPort dstPort x y).srcPort = srcPort := by
  have hsame := (sameShape_putEndpoints hihl srcIp dstIp srcPort dstPort x y).ihl
  simp only [kMinIpHdrLen, Ipv4Hdr.size] at hihl
  rw [Frame.srcPort, hsame]
  rw [putEndpoints]
  simp only [kEthHdrLen, EtherHdr.size, Ipv4Hdr.hdrChecksum, Ipv4Hdr.srcAddr, Ipv4Hdr.dstAddr,
    UdpHdr.srcPort, UdpHdr.dstPort, UdpHdr.dgramCksum]
  rw [u16_put (by omega), u16_put (by omega), u16_put (by omega), u16_put_self,
    beToCpu16_cpuToBe16]

theorem dstPort_putEndpoints :
    (f.putEndpoints srcIp dstIp srcPort dstPort x y).dstPort = dstPort := by
  have hsame := (sameShape_putEndpoints hihl srcIp dstIp srcPort dstPort x y).ihl
  simp only [kMinIpHdrLen, Ipv4Hdr.size] at hihl
  rw [Frame.dstPort, hsame]
  rw [putEndpoints]
  simp only [kEthHdrLen, EtherHdr.size, Ipv4Hdr.hdrChecksum, Ipv4Hdr.srcAddr, Ipv4Hdr.dstAddr,
    UdpHdr.srcPort, UdpHdr.dstPort, UdpHdr.dgramCksum]
  rw [u16_put (by omega), u16_put (by omega), u16_put_self, beToCpu16_cpuToBe16]

end PutEndpoints

/-- The endpoints of a frame, source first, each an address and a port. -/
def endpoints (f : Frame) : (UInt32 × UInt16) × (UInt32 × UInt16) :=
  ((f.srcIp, f.srcPort), (f.dstIp, f.dstPort))

section Natted

variable {f : Frame} (hihl : kMinIpHdrLen ≤ f.ihl) (rte : Rte) (srcIp dstIp : UInt32)
  (srcPort dstPort : UInt16) (recompute : Bool)

include hihl

/-- The NAT rewrite keeps every field that the parser looks at. -/
theorem sameShape_natted : SameShape f (f.natted rte srcIp dstIp srcPort dstPort recompute) := by
  obtain ⟨x, y, heq⟩ := f.natted_eq rte srcIp dstIp srcPort dstPort recompute
  rw [heq]
  exact sameShape_putEndpoints hihl srcIp dstIp srcPort dstPort x y

/-- The NAT rewrite sets the endpoints. -/
theorem endpoints_natted : (f.natted rte srcIp dstIp srcPort dstPort recompute).endpoints =
    ((srcIp, srcPort), (dstIp, dstPort)) := by
  obtain ⟨x, y, heq⟩ := f.natted_eq rte srcIp dstIp srcPort dstPort recompute
  rw [heq, endpoints, srcIp_putEndpoints hihl, dstIp_putEndpoints hihl, srcPort_putEndpoints hihl,
    dstPort_putEndpoints hihl]

end Natted

/-! ## The L2 rewrite -/

/-- The frame with its MAC addresses replaced. -/
def withL2 (f : Frame) (src dst : EtherAddr) : Frame :=
  (f.put EtherHdr.srcAddr src).put EtherHdr.dstAddr dst

theorem setL2_mem {v : PacketView} (hv : v.eth = 0) (src dst : EtherAddr) (f : Frame) :
    ((setL2 v src dst).run f).mem = f.withL2 src dst := by
  simp [setL2, withL2, hv]

/-- A later L2 rewrite absorbs an earlier one. -/
@[simp] theorem withL2_withL2 (f : Frame) (src dst src' dst' : EtherAddr) :
    (f.withL2 src dst).withL2 src' dst' = f.withL2 src' dst' := by
  simp only [withL2]
  -- bring the two writes of the source address together, then those of the destination
  rw [put_comm (f := f.put _ _) dst src' (by decide), put_put_self, put_put_self]

theorem sameShape_withL2 {f : Frame} (hihl : kMinIpHdrLen ≤ f.ihl) (src dst : EtherAddr) :
    SameShape f (f.withL2 src dst) :=
  ((SameShape.refl f).put hihl src (rewritable_l2 (by decide))).put hihl dst
    (rewritable_l2 (by decide))

theorem endpoints_withL2 {f : Frame} (hihl : kMinIpHdrLen ≤ f.ihl) (src dst : EtherAddr) :
    (f.withL2 src dst).endpoints = f.endpoints := by
  have hsame := (sameShape_withL2 hihl src dst).ihl
  simp only [endpoints, Frame.srcIp, Frame.dstIp, Frame.srcPort, Frame.dstPort]
  rw [hsame]
  simp only [withL2]
  simp only [kEthHdrLen, EtherHdr.size, EtherHdr.srcAddr, EtherHdr.dstAddr, Ipv4Hdr.srcAddr,
    Ipv4Hdr.dstAddr, UdpHdr.srcPort, UdpHdr.dstPort]
  rw [u32_put (by omega), u32_put (by omega), u32_put (by omega), u32_put (by omega),
    u16_put (by omega), u16_put (by omega), u16_put (by omega), u16_put (by omega)]

end Frame

end VioletGateway
