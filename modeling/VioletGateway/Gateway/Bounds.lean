import VioletGateway.Gateway.Handle

/-!
# Every access stays inside the frame

Each function of the datapath checks the length of the frame before it reads or writes a header. The
lemmas below follow the program text: a read or write is covered by the last length check before it.
The checksum of the IPv4 header covers `IHL * 4` bytes, which the parser has checked. With the default
flags no other checksum is computed.
-/

set_option autoImplicit false

namespace VioletGateway

open Support Support.Traced

/-- Every access of the computation on the frame is in bounds. -/
abbrev SafeOn {α : Type} (x : FrameM α) (f : Frame) : Prop := Safe Access.InBounds x f

/-! ## Primitive accesses -/

section Primitives

variable {α : Type} {f : Frame} {off : Nat}

/-- A length check that returns early covers what follows it. -/
theorem safe_headersFit_guard {n : Nat} {a : α} {x : FrameM α}
    (hx : n % 65536 ≤ f.dataLen.toNat → SafeOn x f) :
    SafeOn (headersFit (narrow n) >>= fun fits => if !fits then pure a else x) f := by
  refine safe_bind_eq (safe_bind safe_dataLen (safe_pure _ _)) (headersFit_val n f)
    (headersFit_mem _ f) (safe_ite (fun _ => safe_pure _ _) fun hfit => hx ?_)
  rw [Bool.not_eq_true', decide_eq_false_iff_not, not_not] at hfit
  exact hfit

theorem safe_read8_bind {k : UInt8 → FrameM α} (h : off + 1 ≤ f.dataLen.toNat)
    (hk : SafeOn (k (f.u8 off)) f) : SafeOn (read8 off >>= k) f :=
  safe_bind_eq (safe_map (safe_readBlock h)) (read8_val f off) (read8_mem f off) hk

theorem safe_read16_bind {k : UInt16 → FrameM α} (h : off + 2 ≤ f.dataLen.toNat)
    (hk : SafeOn (k (f.u16 off)) f) : SafeOn (read16 off >>= k) f :=
  safe_bind_eq (safe_map (safe_readBlock h)) (read16_val f off) (read16_mem f off) hk

theorem safe_read32_bind {k : UInt32 → FrameM α} (h : off + 4 ≤ f.dataLen.toNat)
    (hk : SafeOn (k (f.u32 off)) f) : SafeOn (read32 off >>= k) f :=
  safe_bind_eq (safe_map (safe_readBlock h)) (read32_val f off) (read32_mem f off) hk

theorem safe_readMac_bind {k : EtherAddr → FrameM α} (h : off + 6 ≤ f.dataLen.toNat)
    (hk : SafeOn (k (f.mac off)) f) : SafeOn (readMac off >>= k) f :=
  safe_bind_eq (safe_readBlock h) (readMac_val f off) (readMac_mem f off) hk

theorem safe_write16 {x : UInt16} (h : off + 2 ≤ f.dataLen.toNat) : SafeOn (write16 off x) f :=
  safe_writeBlock h

theorem safe_write32 {x : UInt32} (h : off + 4 ≤ f.dataLen.toNat) : SafeOn (write32 off x) f :=
  safe_writeBlock h

theorem safe_writeMac {a : EtherAddr} (h : off + 6 ≤ f.dataLen.toNat) : SafeOn (writeMac off a) f :=
  safe_writeBlock h

end Primitives

/-! ## The parsers -/

theorem safe_ethertype (f : Frame) : SafeOn ethertype f := by
  apply safe_headersFit_guard
  intro hlen
  simp only [kEthHdrLen, EtherHdr.size, Nat.reduceMod] at hlen
  exact safe_read16_bind hlen (safe_pure _ _)

theorem safe_ipv4SrcBe (f : Frame) : SafeOn ipv4SrcBe f := by
  apply safe_bind_eq safe_dataLen (dataLen_val f) (dataLen_mem f)
  refine safe_ite (fun _ => safe_pure _ _) fun hfit => ?_
  have hlen : 34 ≤ f.dataLen.toNat := by simpa using hfit
  apply safe_read16_bind (by simp only [EtherHdr.etherType]; omega)
  refine safe_ite (fun _ => safe_pure _ _) fun _ => ?_
  exact safe_map (safe_readBlock (by simp only [EtherHdr.size, Ipv4Hdr.srcAddr]; omega))

theorem safe_passiveLearnIpv4 (N : NeighborTable) (now : UInt64) (f : Frame) :
    SafeOn (passiveLearnIpv4 N now) f := by
  apply safe_headersFit_guard
  intro hlen
  simp only [kEthHdrLen, EtherHdr.size, kMinIpHdrLen, Ipv4Hdr.size, Nat.reduceAdd,
    Nat.reduceMod] at hlen
  apply safe_read16_bind (by simp only [EtherHdr.etherType]; omega)
  refine safe_ite (fun _ => safe_pure _ _) fun _ => ?_
  refine safe_read32_bind
    (by simp only [kEthHdrLen, EtherHdr.size, Ipv4Hdr.srcAddr]; omega) ?_
  refine safe_ite (fun _ => safe_pure _ _) fun _ => ?_
  refine safe_ite (fun _ => safe_pure _ _) fun _ => ?_
  exact safe_readMac_bind (by simp only [EtherHdr.srcAddr]; omega) (safe_pure _ _)

theorem safe_parseArp (f : Frame) : SafeOn parseArp f := by
  apply safe_headersFit_guard
  intro hlen
  simp only [kEthHdrLen, EtherHdr.size, kArpHdrLen, ArpHdr.size, Nat.reduceAdd,
    Nat.reduceMod] at hlen
  apply safe_read16_bind (by simp only [EtherHdr.etherType]; omega)
  refine safe_ite (fun _ => safe_pure _ _) fun _ => ?_
  simp only [kEthHdrLen, EtherHdr.size, ArpHdr.hardware, ArpHdr.protocol, ArpHdr.hlen, ArpHdr.plen,
    Nat.reduceAdd]
  apply safe_read16_bind (by omega)
  apply safe_read16_bind (by omega)
  apply safe_read8_bind (by omega)
  apply safe_read8_bind (by omega)
  exact safe_ite (fun _ => safe_pure _ _) fun _ => safe_pure _ _

theorem parseArp_ok {f : Frame} {v : ArpView} (h : (parseArp.run f).val = .ok v) :
    42 ≤ f.dataLen.toNat ∧ v = ⟨0, 14⟩ := by
  simp only [parseArp, Traced.bind_val, Traced.ite_val, Traced.pure_val, headersFit_val,
    headersFit_mem, Bool.not_eq_true', decide_eq_false_iff_not] at h
  split_ifs at h with hlen
  exact ⟨hlen, (Except.ok.inj h).symm⟩

theorem safe_parseUdpIpv4 (rte : Rte) (f : Frame) : SafeOn (parseUdpIpv4 rte false) f := by
  apply safe_headersFit_guard
  intro hlen
  simp only [kEthHdrLen, EtherHdr.size, kMinIpHdrLen, Ipv4Hdr.size, kUdpHdrLen, UdpHdr.size,
    Nat.reduceAdd, Nat.reduceMod] at hlen
  apply safe_read16_bind (by simp only [EtherHdr.etherType]; omega)
  refine safe_ite (fun _ => safe_pure _ _) fun _ => ?_
  refine safe_read8_bind
    (by simp only [kEthHdrLen, EtherHdr.size, Ipv4Hdr.versionIhl]; omega) ?_
  refine safe_ite (fun _ => safe_pure _ _) fun _ => ?_
  -- from here on the header length is `f.ihl`, and the next check covers the UDP header
  have hihl := f.ihl_le
  apply safe_headersFit_guard
  intro hhdr
  have hhdr' : 14 + f.ihl + 8 ≤ f.dataLen.toNat := by
    have hmod : (14 + f.ihl + 8) % 65536 = 14 + f.ihl + 8 := Nat.mod_eq_of_lt (by omega)
    rw [← hmod]
    exact hhdr
  refine safe_read16_bind
    (by simp only [kEthHdrLen, EtherHdr.size, Ipv4Hdr.fragmentOffset]; omega) ?_
  refine safe_ite (fun _ => safe_pure _ _) fun _ => ?_
  refine safe_read8_bind
    (by simp only [kEthHdrLen, EtherHdr.size, Ipv4Hdr.nextProtoId]; omega) ?_
  refine safe_ite (fun _ => safe_pure _ _) fun _ => ?_
  have hdgram : 14 + f.ihl + 4 + 2 ≤ f.dataLen.toNat := by omega
  apply safe_read16_bind hdgram
  refine safe_ite (fun _ => safe_pure _ _) fun _ => ?_
  exact safe_headersFit_guard fun _ => safe_pure _ _

/-! ## The rewrites -/

/-- The headers of the frame, up to the end of the UDP header, are inside it. -/
def Frame.HeadersIn (f : Frame) : Prop :=
  kMinIpHdrLen ≤ f.ihl ∧ kEthHdrLen + f.ihl + kUdpHdrLen ≤ f.dataLen.toNat

theorem Frame.HeadersIn.of_accepts {f : Frame} (h : f.Accepts) : f.HeadersIn :=
  ⟨h.1.ihl_ge, h.1.hdrLen⟩

theorem Frame.HeadersIn.of_sameShape {f g : Frame} (h : f.HeadersIn) (hs : f.SameShape g) :
    g.HeadersIn := by
  rw [Frame.HeadersIn, hs.ihl, hs.dataLen]
  exact h

theorem safe_setL2 {f : Frame} (h : 14 ≤ f.dataLen.toNat) {v : PacketView} (hv : v.eth = 0)
    (src dst : EtherAddr) : SafeOn (setL2 v src dst) f := by
  rw [setL2]
  simp only [hv, EtherHdr.srcAddr, EtherHdr.dstAddr, Nat.zero_add]
  apply safe_bind_eq (safe_writeMac (by omega)) rfl (writeMac_mem f 6 src)
  exact safe_writeMac (by rw [Frame.put_dataLen]; omega)

theorem safe_rteIpv4Cksum {f : Frame} (h : f.HeadersIn) (rte : Rte) :
    SafeOn (rteIpv4Cksum rte kEthHdrLen) f := by
  obtain ⟨hihl, hlen⟩ := h
  simp only [kMinIpHdrLen, Ipv4Hdr.size, kEthHdrLen, EtherHdr.size, kUdpHdrLen,
    UdpHdr.size] at hihl hlen
  rw [rteIpv4Cksum]
  apply safe_read8_bind (by simp only [kEthHdrLen, EtherHdr.size, Ipv4Hdr.versionIhl]; omega)
  refine safe_bind (safe_readBlock ?_) (safe_pure _ _)
  show 14 + f.ihl ≤ f.dataLen.toNat
  omega

theorem safe_refreshIpv4Checksum {f : Frame} (h : f.HeadersIn) (rte : Rte) :
    SafeOn (refreshIpv4Checksum rte kEthHdrLen) f := by
  have hwrite : kEthHdrLen + Ipv4Hdr.hdrChecksum + 2 ≤ f.dataLen.toNat := by
    have := h.1
    have := h.2
    simp only [kMinIpHdrLen, Ipv4Hdr.size, kEthHdrLen, EtherHdr.size, kUdpHdrLen, UdpHdr.size,
      Ipv4Hdr.hdrChecksum] at *
    omega
  have hshape := (Frame.SameShape.refl f).put h.1 (le16 0)
    (Frame.rewritable_ip h.1 Ipv4Hdr.hdrChecksum (by decide) (by decide))
  -- the header length is read again after the field was cleared
  apply safe_bind_eq (safe_write16 hwrite) rfl (write16_mem f _ 0)
  refine safe_bind_eq (safe_rteIpv4Cksum (h.of_sameShape hshape) rte) rfl
    (rteIpv4Cksum_mem rte _ _) ?_
  exact safe_write16 hwrite

theorem safe_applyNat {f : Frame} (h : f.Accepts) (rte : Rte) (srcIp dstIp : UInt32)
    (srcPort dstPort : UInt16) : SafeOn (applyNat rte f.view srcIp dstIp srcPort dstPort false) f := by
  have hin := Frame.HeadersIn.of_accepts h
  have hihl : 20 ≤ f.ihl := hin.1
  have hlen : 14 + f.ihl + 8 ≤ f.dataLen.toNat := hin.2
  -- no write moves the UDP header, so the offsets stay valid
  have hshape₁ := (Frame.SameShape.refl f).put hin.1 (le32 srcIp)
    (Frame.rewritable_ip hin.1 Ipv4Hdr.srcAddr (by decide) (by decide))
  have hshape₂ := hshape₁.put hin.1 (le32 dstIp)
    (Frame.rewritable_ip hin.1 Ipv4Hdr.dstAddr (by decide) (by decide))
  have hshape₃ := hshape₂.put hin.1 (le16 (cpuToBe16 srcPort))
    (Frame.rewritable_udp hin.1 UdpHdr.srcPort (by decide))
  have hshape₄ := hshape₃.put hin.1 (le16 (cpuToBe16 dstPort))
    (Frame.rewritable_udp hin.1 UdpHdr.dstPort (by decide))
  refine safe_bind_eq (safe_write32 ?_) rfl (write32_mem f _ srcIp) ?_
  · show 26 + 4 ≤ f.dataLen.toNat
    omega
  refine safe_bind_eq (safe_write32 ?_) rfl (write32_mem _ _ dstIp) ?_
  · show 30 + 4 ≤ f.dataLen.toNat
    omega
  refine safe_bind_eq (safe_write16 ?_) rfl (write16_mem _ _ _) ?_
  · show 14 + f.ihl + 0 + 2 ≤ f.dataLen.toNat
    omega
  refine safe_bind_eq (safe_write16 ?_) rfl (write16_mem _ _ _) ?_
  · show 14 + f.ihl + 2 + 2 ≤ f.dataLen.toNat
    omega
  apply safe_bind (safe_refreshIpv4Checksum (hin.of_sameShape hshape₄) rte)
  apply safe_write16
  show 14 + f.ihl + 6 + 2 ≤ f.dataLen.toNat
  omega

/-! ## The handlers -/

theorem safe_flowKeyFromView {f : Frame} (h : f.Accepts) : SafeOn (flowKeyFromView f.view) f := by
  have hihl : 20 ≤ f.ihl := h.1.ihl_ge
  have hlen : 14 + f.ihl + 8 ≤ f.dataLen.toNat := h.1.hdrLen
  have hsrcIp : 26 + 4 ≤ f.dataLen.toNat := by omega
  have hdstIp : 30 + 4 ≤ f.dataLen.toNat := by omega
  have hsrcPort : 14 + f.ihl + 0 + 2 ≤ f.dataLen.toNat := by omega
  have hdstPort : 14 + f.ihl + 2 + 2 ≤ f.dataLen.toNat := by omega
  refine safe_read32_bind hsrcIp (safe_read32_bind hdstIp ?_)
  refine safe_bind_eq (safe_read16_bind hsrcPort (safe_pure _ _)) rfl rfl ?_
  exact safe_bind_eq (safe_read16_bind hdstPort (safe_pure _ _)) rfl rfl (safe_pure _ _)

namespace Forwarder

variable {σ : Type} (rte : Rte) (fw : Forwarder σ)

theorem safe_sendVia {f : Frame} (h : 14 ≤ f.dataLen.toNat) (st : ForwardState σ) {v : PacketView}
    (hv : v.eth = 0) (ip : UInt32) (fallback : EtherAddr) (sent : HandleResult) :
    SafeOn (fw.sendVia st v ip fallback sent) f := by
  rw [sendVia]
  cases lookupNextHopMac st.neighbors ip fallback with
  | none => exact safe_pure _ _
  | some dstMac => exact safe_bind (safe_setL2 h hv _ _) (safe_pure _ _)

/-- The NAT rewrite followed by the L2 part. -/
theorem safe_natThenSend {f : Frame} (h : f.Accepts) (srcIp dstIp : UInt32)
    (srcPort dstPort : UInt16) (st : ForwardState σ) (ip : UInt32) (fallback : EtherAddr)
    (sent : HandleResult) :
    SafeOn (do
      applyNat rte f.view srcIp dstIp srcPort dstPort false
      let o ← fw.sendVia st f.view ip fallback sent
      return (o, st)) f := by
  have hshape := Frame.sameShape_natted h.1.ihl_ge rte srcIp dstIp srcPort dstPort false
  have hlen : 14 + f.ihl + 8 ≤ f.dataLen.toNat := h.1.hdrLen
  apply safe_bind (safe_applyNat h rte srcIp dstIp srcPort dstPort)
  refine safe_bind (fw.safe_sendVia ?_ st rfl ip fallback sent) (safe_pure _ _)
  -- NAT keeps the length
  show 14 ≤ (f.natted rte srcIp dstIp srcPort dstPort false).dataLen.toNat
  rw [hshape.dataLen]
  omega

variable (hrecompute : fw.cfg.recomputeUdpChecksum = false)

include hrecompute

theorem safe_handleForward {f : Frame} (h : f.Accepts) (st : ForwardState σ) (now : UInt64) :
    SafeOn (fw.handleForward rte st f.view now) f := by
  rw [handleForward]
  apply safe_bind_eq (safe_flowKeyFromView h) (flowKeyFromView_val f) (flowKeyFromView_mem _ f)
  dsimp only
  cases (fw.sessionFor st f.flowKey now).1.bind (fw.sessionFor st f.flowKey now).2.sessions.heap with
  | none => exact safe_pure _ _
  | some s =>
      simp only [applyForwardNat, hrecompute]
      exact fw.safe_natThenSend rte h _ _ _ _ _ _ _ _

theorem safe_handleReverse {f : Frame} (h : f.Accepts) (st : ForwardState σ) (now : UInt64) :
    SafeOn (fw.handleReverse rte st f.view now) f := by
  rw [handleReverse]
  apply safe_bind_eq (safe_flowKeyFromView h) (flowKeyFromView_val f) (flowKeyFromView_mem _ f)
  cases st.sessions.lookupReverse f.flowKey with
  | none => exact safe_pure _ _
  | some p =>
      dsimp only
      cases (st.sessions.touch (some p) now).heap p with
      | none => exact safe_pure _ _
      | some s =>
          simp only [applyReverseNat, hrecompute]
          exact fw.safe_natThenSend rte h _ _ _ _ _ _ _ _

theorem safe_handle (hverify : fw.cfg.verifyChecksum = false) (st : ForwardState σ) (now : UInt64)
    (f : Frame) : SafeOn (fw.handle rte st now) f := by
  rw [handle, hverify]
  apply safe_bind_eq (safe_parseUdpIpv4 rte f) rfl (parseUdpIpv4_mem rte false f)
  cases hparse : ((parseUdpIpv4 rte false).run f).val with
  | error e => exact safe_pure _ _
  | ok v =>
      obtain ⟨hacc, rfl⟩ := (parseUdpIpv4_ok_iff rte f v).mp hparse
      have hihl : 20 ≤ f.ihl := hacc.1.ihl_ge
      have hlen : 14 + f.ihl + 8 ≤ f.dataLen.toNat := hacc.1.hdrLen
      have hdstIp : 30 + 4 ≤ f.dataLen.toNat := by omega
      have hdstPort : 14 + f.ihl + 2 + 2 ≤ f.dataLen.toNat := by omega
      apply safe_read32_bind hdstIp
      refine safe_bind_eq (safe_read16_bind hdstPort (safe_pure _ _)) rfl rfl ?_
      apply safe_ite (fun _ => fw.safe_handleForward rte hrecompute hacc st now)
      intro _
      apply safe_ite (fun _ => fw.safe_handleReverse rte hrecompute hacc st now)
      intro _
      exact safe_pure _ _

omit hrecompute in
theorem safe_finishL2 (N : Option NeighborTable) (ip : UInt32) (f : Frame) :
    SafeOn (fw.finishL2 rte N ip) f := by
  rw [finishL2]
  apply safe_bind_eq (safe_parseUdpIpv4 rte f) rfl (parseUdpIpv4_mem rte false f)
  cases hparse : ((parseUdpIpv4 rte false).run f).val with
  | error e => exact safe_pure _ _
  | ok v =>
      obtain ⟨hacc, rfl⟩ := (parseUdpIpv4_ok_iff rte f v).mp hparse
      have hlen : 14 + f.ihl + 8 ≤ f.dataLen.toNat := hacc.1.hdrLen
      dsimp only
      cases lookupNextHopMac N ip fw.cfg.upstreamMac with
      | none => exact safe_pure _ _
      | some dstMac => exact safe_bind (safe_setL2 (by omega) rfl _ _) (safe_pure _ _)

end Forwarder

namespace ArpConfig

variable (cfg : ArpConfig) {f : Frame} (hlen : 42 ≤ f.dataLen.toNat)

include hlen

theorem safe_makeReply (ip : UInt32) : SafeOn (cfg.makeReply ⟨0, 14⟩ ip) f := by
  rw [makeReply]
  simp only [EtherHdr.dstAddr, EtherHdr.srcAddr, ArpHdr.opcode, ArpHdr.tha, ArpHdr.sha, ArpHdr.sip,
    ArpHdr.tip, Nat.zero_add, Nat.reduceAdd]
  apply safe_readMac_bind (by omega)
  apply safe_bind_eq (safe_writeMac (by omega)) rfl (writeMac_mem _ _ _)
  apply safe_bind_eq (safe_writeMac (by rw [Frame.put_dataLen]; omega)) rfl (writeMac_mem _ _ _)
  refine safe_bind_eq (safe_write16 (by simp only [Frame.put_dataLen]; omega)) rfl
    (write16_mem _ _ _) ?_
  apply safe_readMac_bind (by simp only [Frame.put_dataLen]; omega)
  refine safe_bind_eq (safe_writeMac (by simp only [Frame.put_dataLen]; omega)) rfl
    (writeMac_mem _ _ _) ?_
  refine safe_bind_eq (safe_writeMac (by simp only [Frame.put_dataLen]; omega)) rfl
    (writeMac_mem _ _ _) ?_
  apply safe_read32_bind (by simp only [Frame.put_dataLen]; omega)
  refine safe_bind_eq (safe_write32 (by simp only [Frame.put_dataLen]; omega)) rfl
    (write32_mem _ _ _) ?_
  refine safe_bind_eq (safe_write32 (by simp only [Frame.put_dataLen]; omega)) rfl
    (write32_mem _ _ _) ?_
  exact safe_bind (safe_setDataLen _) (safe_pure _ _)

theorem safe_handleRequest : SafeOn (cfg.handleRequest ⟨0, 14⟩) f := by
  apply safe_read32_bind (by simp only [ArpHdr.tip]; omega)
  exact safe_ite (fun _ => safe_pure _ _) fun _ => cfg.safe_makeReply hlen _

theorem safe_handleReply (N : NeighborTable) (now : UInt64) :
    SafeOn (handleReply ⟨0, 14⟩ N now) f := by
  apply safe_read32_bind (by simp only [ArpHdr.sip]; omega)
  refine safe_ite (fun _ => safe_pure _ _) fun _ => ?_
  apply safe_readMac_bind (by simp only [ArpHdr.sha]; omega)
  exact safe_ite (fun _ => safe_pure _ _) fun _ => safe_pure _ _

omit hlen in
theorem safe_handle (N : NeighborTable) (now : UInt64) (f : Frame) :
    SafeOn (cfg.handle N now) f := by
  rw [handle]
  apply safe_bind_eq (safe_parseArp f) rfl (parseArp_mem f)
  cases hparse : (parseArp.run f).val with
  | error e => exact safe_pure _ _
  | ok v =>
      -- the parser has checked the length of the whole ARP frame
      obtain ⟨hlen, rfl⟩ := parseArp_ok hparse
      apply safe_read16_bind (by simp only [ArpHdr.opcode]; omega)
      refine safe_ite (fun _ => safe_bind (cfg.safe_handleRequest hlen) (safe_pure _ _)) fun _ => ?_
      exact safe_ite (fun _ => safe_handleReply hlen N now) fun _ => safe_pure _ _

end ArpConfig

/-! ## The gateway -/

/-- With the default flags, handling any frame and finishing any waiting frame touches only bytes
below `data_len`, whatever the state of the gateway. -/
theorem handle_accesses_inBounds (rte : Rte) (g : VioletGW)
    (hverify : g.fcfg.verifyChecksum = false) (hrecompute : g.fcfg.recomputeUdpChecksum = false)
    (now : UInt64) (f : Frame) :
    (∀ a ∈ ((g.handle rte now).run f).log, a.InBounds) ∧
      ∀ (N : NeighborTable) (ip : UInt32) (pending : Frame),
        ∀ a ∈ ((g.forwarder.finishL2 rte (some N) ip).run pending).log, a.InBounds := by
  have hhandle : SafeOn (g.handle rte now) f := by
    apply safe_bind_eq (safe_ethertype f) rfl (ethertype_mem f)
    refine safe_ite (fun _ => ?_) fun _ => safe_ite (fun _ => ?_) fun _ => safe_pure _ _
    · exact safe_bind (g.acfg.safe_handle g.neighbors now f) (safe_pure _ _)
    · refine safe_bind_eq (safe_passiveLearnIpv4 g.neighbors now f) rfl
        (passiveLearnIpv4_mem _ now f) ?_
      apply safe_bind_eq (safe_ipv4SrcBe f) rfl (ipv4SrcBe_mem f)
      apply safe_bind (Forwarder.safe_handle rte _ hrecompute hverify _ now f)
      -- the second read is of the rewritten frame, with a length check of its own
      apply safe_bind (safe_ipv4SrcBe _)
      exact safe_ite (fun _ => safe_pure _ _) fun _ => safe_pure _ _
  exact ⟨hhandle, fun N ip pending => g.forwarder.safe_finishL2 rte (some N) ip pending⟩

/-- A frame of 42 bytes at the gateway as `init_services` sets it up. -/
theorem handle_accesses_inBounds_lab :
    (∀ a ∈ (((VioletGW.initServices .lab none).handle Rte.dpdk 0).run overlongFrame).log,
        a.InBounds) ∧
      ∀ (N : NeighborTable) (ip : UInt32) (pending : Frame),
        ∀ a ∈ (((VioletGW.initServices .lab none).forwarder.finishL2 Rte.dpdk (some N) ip).run
          pending).log, a.InBounds :=
  handle_accesses_inBounds Rte.dpdk (VioletGW.initServices .lab none) rfl rfl 0 overlongFrame

end VioletGateway
