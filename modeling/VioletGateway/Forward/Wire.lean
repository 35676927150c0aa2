import VioletGateway.Forward.Handle
import VioletGateway.Packet.Checksum

/-!
# The rewritten frame on the wire

What a receiver sees of a frame that the forwarder has accepted. The rewrite replaces the MAC
addresses, the IPv4 addresses, the UDP ports and the two checksums, and no other byte (`NatByte`); the
IPv4 header checksum it leaves is valid for every header, with or without options, because it is the
complement of the sum of all other words of the header. `NatOnWire` collects the facts and
`handle_onWire` proves them of the forwarder.
-/

set_option autoImplicit false

namespace VioletGateway

open Support

namespace Frame

/-! ## The bytes that change -/

/-- The byte belongs to a field that the rewrites replace: the MAC addresses, the checksum and the
addresses of the IPv4 header, the ports and the checksum of the UDP header. -/
def NatByte (f : Frame) (i : Nat) : Prop :=
  i < EtherHdr.etherType ∨
    (kEthHdrLen + Ipv4Hdr.hdrChecksum ≤ i ∧ i < kEthHdrLen + Ipv4Hdr.size) ∨
    (kEthHdrLen + f.ihl + UdpHdr.srcPort ≤ i ∧ i < kEthHdrLen + f.ihl + UdpHdr.dgramLen) ∨
    (kEthHdrLen + f.ihl + UdpHdr.dgramCksum ≤ i ∧ i < kEthHdrLen + f.ihl + UdpHdr.size)

theorem data_put_of_outside (f : Frame) {off n i : Nat} (bs : Fin n → UInt8)
    (h : i < off ∨ off + n ≤ i) : (f.put off bs).data i = f.data i :=
  ByteMem.store_apply_of_outside h

theorem data_putEndpoints (f : Frame) (srcIp dstIp : UInt32) (srcPort dstPort x y : UInt16)
    {i : Nat} (h : ¬f.NatByte i) :
    (f.putEndpoints srcIp dstIp srcPort dstPort x y).data i = f.data i := by
  simp only [NatByte, kEthHdrLen, EtherHdr.size, EtherHdr.etherType, Ipv4Hdr.hdrChecksum,
    Ipv4Hdr.size, UdpHdr.srcPort, UdpHdr.dgramLen, UdpHdr.dgramCksum, UdpHdr.size] at h
  rw [putEndpoints]
  simp only [kEthHdrLen, EtherHdr.size, Ipv4Hdr.hdrChecksum, Ipv4Hdr.srcAddr, Ipv4Hdr.dstAddr,
    UdpHdr.srcPort, UdpHdr.dstPort, UdpHdr.dgramCksum]
  rw [data_put_of_outside _ _ (by omega), data_put_of_outside _ _ (by omega),
    data_put_of_outside _ _ (by omega), data_put_of_outside _ _ (by omega),
    data_put_of_outside _ _ (by omega), data_put_of_outside _ _ (by omega)]

theorem data_withL2 (f : Frame) (src dst : EtherAddr) {i : Nat} (h : EtherHdr.etherType ≤ i) :
    (f.withL2 src dst).data i = f.data i := by
  simp only [EtherHdr.etherType] at h
  rw [withL2]
  simp only [EtherHdr.srcAddr, EtherHdr.dstAddr]
  rw [data_put_of_outside _ _ (by omega), data_put_of_outside _ _ (by omega)]

/-! ## The IPv4 header checksum -/

/-- The bytes of the IPv4 header, options included. -/
def ipv4Header (f : Frame) : List UInt8 := List.ofFn (f.data.load kEthHdrLen f.ihl)

/-- Frames that agree from the IPv4 header to its end have the same header. -/
theorem ipv4Header_congr {f g : Frame} (hihl : g.ihl = f.ihl)
    (h : ∀ i, kEthHdrLen ≤ i → i < kEthHdrLen + f.ihl → g.data i = f.data i) :
    g.ipv4Header = f.ipv4Header := by
  rw [ipv4Header, hihl]
  refine congrArg List.ofFn (funext fun i => ?_)
  exact h _ (Nat.le_add_right _ _) (Nat.add_lt_add_left i.isLt _)

theorem wordsLe_ofFn_two (b : Fin 2 → UInt8) : wordsLe (List.ofFn b) = [(ofLe16 b).toNat] := by
  have h₀ := (b 0).toNat_lt
  have h₁ := (b 1).toNat_lt
  simp only [List.ofFn_succ, List.ofFn_zero, wordsLe, ofLe16, UInt16.toNat_ofNat', Fin.succ_zero_eq_one,
    List.cons.injEq, and_true]
  omega

/-- The words of the header around its checksum. -/
theorem wordsLe_ipv4Header {f : Frame} (hihl : kMinIpHdrLen ≤ f.ihl) :
    wordsLe f.ipv4Header =
      wordsLe (List.ofFn (f.data.load kEthHdrLen Ipv4Hdr.hdrChecksum)) ++
        (f.u16 (kEthHdrLen + Ipv4Hdr.hdrChecksum)).toNat ::
          wordsLe (List.ofFn (f.data.load (kEthHdrLen + Ipv4Hdr.srcAddr)
            (f.ihl - Ipv4Hdr.srcAddr))) := by
  simp only [kMinIpHdrLen, Ipv4Hdr.size] at hihl
  have hsplit : f.ihl = 10 + (2 + (f.ihl - 12)) := by omega
  rw [ipv4Header]
  simp only [kEthHdrLen, EtherHdr.size, Ipv4Hdr.hdrChecksum, Ipv4Hdr.srcAddr]
  generalize f.ihl - 12 = n at hsplit
  rw [hsplit, ByteMem.ofFn_load_add, ByteMem.ofFn_load_add, wordsLe_append (by simp),
    wordsLe_append (by simp), wordsLe_ofFn_two]
  rfl

/-- Two frames with the same header but for its checksum. -/
theorem wordsLe_ipv4Header_put (f : Frame) (hihl : kMinIpHdrLen ≤ f.ihl) (x : UInt16) :
    wordsLe (f.put (kEthHdrLen + Ipv4Hdr.hdrChecksum) (le16 x)).ipv4Header =
      wordsLe (List.ofFn (f.data.load kEthHdrLen Ipv4Hdr.hdrChecksum)) ++
        x.toNat :: wordsLe (List.ofFn (f.data.load (kEthHdrLen + Ipv4Hdr.srcAddr)
            (f.ihl - Ipv4Hdr.srcAddr))) := by
  have hsame := sameShape_put hihl (le16 x)
    (rewritable_ip hihl Ipv4Hdr.hdrChecksum (by decide) (by decide))
  have hihl' : kMinIpHdrLen ≤ (f.put (kEthHdrLen + Ipv4Hdr.hdrChecksum) (le16 x)).ihl := by
    rw [hsame.ihl]
    exact hihl
  rw [wordsLe_ipv4Header hihl', u16_put_self, hsame.ihl]
  have hpre : (f.put (kEthHdrLen + Ipv4Hdr.hdrChecksum) (le16 x)).data.load kEthHdrLen
      Ipv4Hdr.hdrChecksum = f.data.load kEthHdrLen Ipv4Hdr.hdrChecksum :=
    ByteMem.load_store_of_disjoint (Or.inl (Nat.le_refl _))
  have hpost : (f.put (kEthHdrLen + Ipv4Hdr.hdrChecksum) (le16 x)).data.load
      (kEthHdrLen + Ipv4Hdr.srcAddr) (f.ihl - Ipv4Hdr.srcAddr) =
        f.data.load (kEthHdrLen + Ipv4Hdr.srcAddr) (f.ihl - Ipv4Hdr.srcAddr) :=
    ByteMem.load_store_of_disjoint (Or.inr (by decide))
  rw [hpre, hpost]

/-- `refresh_ipv4_checksum` leaves a valid header. -/
theorem onesSum_refreshIpv4Checksum {rte : Rte} (hrte : rte.Ipv4CksumOk) {f : Frame}
    (hihl : kMinIpHdrLen ≤ f.ihl) :
    onesSum (wordsLe ((refreshIpv4Checksum rte kEthHdrLen).run f).mem.ipv4Header) = 65535 := by
  have hmem : ((refreshIpv4Checksum rte kEthHdrLen).run f).mem =
      f.put (kEthHdrLen + Ipv4Hdr.hdrChecksum) (le16 (rte.ipv4Cksum
        (f.put (kEthHdrLen + Ipv4Hdr.hdrChecksum) (le16 0)).ipv4Header)) := by
    simp only [refreshIpv4Checksum, Traced.bind_mem, write16_mem, rteIpv4Cksum_mem, put_put_self]
    rfl
  have hlen : (f.put (kEthHdrLen + Ipv4Hdr.hdrChecksum) (le16 0)).ipv4Header.length ≤ 60 := by
    rw [ipv4Header, List.length_ofFn]
    exact ihl_le _
  rw [hmem, wordsLe_ipv4Header_put f hihl]
  apply onesSum_complement wordsLe_lt wordsLe_lt
  rw [hrte _ hlen, wordsLe_ipv4Header_put f hihl]
  rfl

/-! ## The rewrite as a whole -/

/-- What the rewrite of `f` to `f'` looks like to a receiver. -/
structure NatOnWire (recompute : Bool) (f f' : Frame) (src dst : UInt32 × UInt16) : Prop where
  dataLen : f'.dataLen = f.dataLen
  untouched : ∀ i, ¬f.NatByte i → f'.data i = f.data i
  endpoints : f'.endpoints = (src, dst)
  udpCksum : recompute = false → f'.u16 (kEthHdrLen + f.ihl + UdpHdr.dgramCksum) = 0
  ipCksum : onesSum (wordsBe f'.ipv4Header) = 0xffff

/-- The NAT rewrite up to the checksums. -/
def withEndpoints (f : Frame) (srcIp dstIp : UInt32) (srcPort dstPort : UInt16) : Frame :=
  (((f.put (kEthHdrLen + Ipv4Hdr.srcAddr) (le32 srcIp)).put
    (kEthHdrLen + Ipv4Hdr.dstAddr) (le32 dstIp)).put
    (kEthHdrLen + f.ihl + UdpHdr.srcPort) (le16 (cpuToBe16 srcPort))).put
    (kEthHdrLen + f.ihl + UdpHdr.dstPort) (le16 (cpuToBe16 dstPort))

theorem ihl_withEndpoints {f : Frame} (hihl : kMinIpHdrLen ≤ f.ihl) (srcIp dstIp : UInt32)
    (srcPort dstPort : UInt16) : (f.withEndpoints srcIp dstIp srcPort dstPort).ihl = f.ihl := by
  have h₁ := (SameShape.refl f).put hihl (le32 srcIp)
    (rewritable_ip hihl Ipv4Hdr.srcAddr (by decide) (by decide))
  have h₂ := h₁.put hihl (le32 dstIp)
    (rewritable_ip hihl Ipv4Hdr.dstAddr (by decide) (by decide))
  have h₃ := h₂.put hihl (le16 (cpuToBe16 srcPort))
    (rewritable_udp hihl UdpHdr.srcPort (by decide))
  exact (h₃.put hihl (le16 (cpuToBe16 dstPort))
    (rewritable_udp hihl UdpHdr.dstPort (by decide))).ihl

/-- The IPv4 checksum is refreshed when the endpoints are in place, the UDP checksum is written last:
`0`, unless it is to be recomputed. -/
theorem natted_eq_refresh (f : Frame) (rte : Rte) (srcIp dstIp : UInt32) (srcPort dstPort : UInt16)
    (recompute : Bool) :
    ∃ y, (recompute = false → y = 0) ∧
      f.natted rte srcIp dstIp srcPort dstPort recompute =
        ((refreshIpv4Checksum rte kEthHdrLen).run
          (f.withEndpoints srcIp dstIp srcPort dstPort)).mem.put
            (kEthHdrLen + f.ihl + UdpHdr.dgramCksum) (le16 y) := by
  unfold natted applyNat finishL4Checksum
  simp only [Traced.bind_mem, write32_mem, write16_mem]
  cases recompute with
  | false => exact ⟨0, fun _ => rfl, rfl⟩
  | true =>
      obtain ⟨y, hy⟩ := refreshUdpChecksum_mem rte f.view.ip f.view.udp
        ((refreshIpv4Checksum rte kEthHdrLen).run
          (f.withEndpoints srcIp dstIp srcPort dstPort)).mem
      exact ⟨y, nofun, hy⟩

theorem natOnWire_natted {rte : Rte} (hrte : rte.Ipv4CksumOk) {f : Frame}
    (hihl : kMinIpHdrLen ≤ f.ihl) (srcIp dstIp : UInt32) (srcPort dstPort : UInt16)
    (recompute : Bool) :
    NatOnWire recompute f (f.natted rte srcIp dstIp srcPort dstPort recompute) (srcIp, srcPort)
      (dstIp, dstPort) := by
  have hsame := sameShape_natted hihl rte srcIp dstIp srcPort dstPort recompute
  obtain ⟨y, hy, heq⟩ := f.natted_eq_refresh rte srcIp dstIp srcPort dstPort recompute
  have hmid := ihl_withEndpoints hihl srcIp dstIp srcPort dstPort
  refine ⟨hsame.dataLen, ?_, endpoints_natted hihl rte srcIp dstIp srcPort dstPort recompute, ?_, ?_⟩
  · intro i hi
    obtain ⟨x, y, hputs⟩ := f.natted_eq rte srcIp dstIp srcPort dstPort recompute
    rw [hputs]
    exact data_putEndpoints f srcIp dstIp srcPort dstPort x y hi
  · intro hrec
    rw [heq, u16_put_self]
    exact hy hrec
  · -- the last write is behind the IPv4 header
    obtain ⟨x, hx⟩ := refreshIpv4Checksum_mem rte kEthHdrLen
      (f.withEndpoints srcIp dstIp srcPort dstPort)
    have hihl' : kMinIpHdrLen ≤ (f.withEndpoints srcIp dstIp srcPort dstPort).ihl := by
      rw [hmid]
      exact hihl
    have hihl'' : ((refreshIpv4Checksum rte kEthHdrLen).run
        (f.withEndpoints srcIp dstIp srcPort dstPort)).mem.ihl = f.ihl := by
      rw [hx, (sameShape_put hihl' (le16 x)
        (rewritable_ip hihl' Ipv4Hdr.hdrChecksum (by decide) (by decide))).ihl, hmid]
    rw [onesSum_wordsBe_eq_max_iff, ← onesSum_refreshIpv4Checksum hrte hihl']
    refine congrArg (fun hdr => onesSum (wordsLe hdr)) (ipv4Header_congr ?_ ?_)
    · rw [hsame.ihl, hihl'']
    · intro i _ hi
      rw [hihl''] at hi
      rw [heq]
      exact data_put_of_outside _ _ (Or.inl (Nat.lt_add_right _ hi))

/-- Setting the MAC addresses afterwards changes none of this. -/
theorem NatOnWire.withL2 {recompute : Bool} {f f' : Frame} {src dst : UInt32 × UInt16}
    (h : NatOnWire recompute f f' src dst) (hihl : kMinIpHdrLen ≤ f.ihl) (hihl' : f'.ihl = f.ihl)
    (srcMac dstMac : EtherAddr) : NatOnWire recompute f (f'.withL2 srcMac dstMac) src dst := by
  have hge : kMinIpHdrLen ≤ f'.ihl := by
    rw [hihl']
    exact hihl
  have hsame := sameShape_withL2 hge srcMac dstMac
  refine ⟨hsame.dataLen.trans h.dataLen, ?_, (endpoints_withL2 hge srcMac dstMac).trans h.endpoints,
    ?_, ?_⟩
  · intro i hi
    have hmac : EtherHdr.etherType ≤ i := Nat.not_lt.mp fun hlt => hi (Or.inl hlt)
    exact (data_withL2 f' srcMac dstMac hmac).trans (h.untouched i hi)
  · intro hrec
    rw [← h.udpCksum hrec]
    rw [Frame.withL2]
    simp only [kEthHdrLen, EtherHdr.size, EtherHdr.srcAddr, EtherHdr.dstAddr, UdpHdr.dgramCksum]
    rw [u16_put (by omega), u16_put (by omega)]
  · rw [← h.ipCksum]
    refine congrArg (fun hdr => onesSum (wordsBe hdr)) (ipv4Header_congr hsame.ihl ?_)
    intro i hi _
    refine data_withL2 f' srcMac dstMac (Nat.le_trans ?_ hi)
    decide

end Frame

/-! ## The forwarder -/

namespace Forwarder

variable {σ : Type} {rte : Rte} (fw : Forwarder σ)

theorem natOnWire_sendFrame (hrte : rte.Ipv4CksumOk) {f : Frame} (hihl : kMinIpHdrLen ≤ f.ihl)
    (hop : Option EtherAddr) (srcIp dstIp : UInt32) (srcPort dstPort : UInt16) (recompute : Bool) :
    f.NatOnWire recompute (fw.sendFrame hop (f.natted rte srcIp dstIp srcPort dstPort recompute))
      (srcIp, srcPort) (dstIp, dstPort) := by
  have hnat := Frame.natOnWire_natted hrte hihl srcIp dstIp srcPort dstPort recompute
  cases hop with
  | none => exact hnat
  | some mac =>
      exact hnat.withL2 hihl (Frame.sameShape_natted hihl rte srcIp dstIp srcPort dstPort
        recompute).ihl fw.cfg.gatewayMac mac

/-- The session that the session part returns is filed under the key of the flow. -/
theorem sessionFor_lookup {st : ForwardState σ} {key : FlowKey} {now : UInt64} {p : SessionPtr}
    (h : (fw.sessionFor st key now).1 = some p) :
    (fw.sessionFor st key now).2.sessions.lookupForward key = some p := by
  rw [sessionFor] at h ⊢
  cases hkey : st.sessions.lookupForward key with
  | some q =>
      simp only [hkey] at h ⊢
      rw [← h]
      exact hkey
  | none =>
      simp only [hkey] at h ⊢
      cases hpicker : fw.picker with
      | none => simp [hpicker] at h
      | some picker =>
          simp only [hpicker] at h ⊢
          cases hpick : (picker key st.pickerState).1 with
          | none => simp [hpick] at h
          | some up =>
              simp only [hpick] at h ⊢
              split_ifs at h ⊢
              -- a new session is filed under its forward key
              rw [SessionTable.create] at h ⊢
              dsimp only at h ⊢
              split_ifs at h ⊢
              rw [← h]
              exact AList.lookup_insert _

variable {fw}

/-- A frame for the VIP that is not dropped was rewritten for the session of its flow. -/
theorem handleForward_sent {st : ForwardState σ} {f : Frame} {now : UInt64}
    (h : ((fw.handleForward rte st f.view now).run f).val.1.result ≠ .drop) :
    ∃ p s hop, ((fw.handleForward rte st f.view now).run f).val.2.sessions.lookupForward
        f.flowKey = some p ∧
      ((fw.handleForward rte st f.view now).run f).val.2.sessions.heap p = some s ∧
      ((fw.handleForward rte st f.view now).run f).mem =
        fw.sendFrame hop (fw.forwardNatted rte s f) := by
  rw [handleForward] at h ⊢
  simp only [Traced.bind_val, Traced.bind_mem, flowKeyFromView_val, flowKeyFromView_mem] at h ⊢
  cases hp : (fw.sessionFor st f.flowKey now).1 with
  | none =>
      rw [hp] at h
      exact absurd rfl h
  | some p =>
      simp only [hp, Option.bind_some] at h ⊢
      cases hs : (fw.sessionFor st f.flowKey now).2.sessions.heap p with
      | none =>
          rw [hs] at h
          exact absurd rfl h
      | some s =>
          simp only [Traced.bind_val, Traced.bind_mem, Traced.pure_val, Traced.pure_mem,
            fw.sendVia_mem _ (rfl : f.view.eth = 0)]
          exact ⟨p, s, _, fw.sessionFor_lookup hp, hs, rfl⟩

/-- A frame for the gateway that is not dropped was rewritten for the session of its reverse key. -/
theorem handleReverse_sent {st : ForwardState σ} {f : Frame} {now : UInt64}
    (h : ((fw.handleReverse rte st f.view now).run f).val.1.result ≠ .drop) :
    ∃ p s hop, ((fw.handleReverse rte st f.view now).run f).val.2.sessions.lookupReverse
        f.flowKey = some p ∧
      ((fw.handleReverse rte st f.view now).run f).val.2.sessions.heap p = some s ∧
      ((fw.handleReverse rte st f.view now).run f).mem =
        fw.sendFrame hop (fw.reverseNatted rte s f) := by
  rw [handleReverse] at h ⊢
  simp only [Traced.bind_val, Traced.bind_mem, flowKeyFromView_val, flowKeyFromView_mem] at h ⊢
  cases hp : st.sessions.lookupReverse f.flowKey with
  | none =>
      rw [hp] at h
      exact absurd rfl h
  | some p =>
      simp only [hp] at h ⊢
      cases hs : (st.sessions.touch (some p) now).heap p with
      | none =>
          rw [hs] at h
          exact absurd rfl h
      | some s =>
          simp only [Traced.bind_val, Traced.bind_mem, Traced.pure_val, Traced.pure_mem,
            fw.sendVia_mem _ (rfl : f.view.eth = 0)]
          exact ⟨p, s, _, hp, hs, rfl⟩

variable (fw)

theorem handle_eq_dispatch (st : ForwardState σ) (now : UInt64) {f : Frame}
    (hparse : ((parseUdpIpv4 rte fw.cfg.verifyChecksum).run f).val = .ok f.view) :
    ((fw.handle rte st now).run f).val = ((fw.dispatch rte st now f).run f).val ∧
      ((fw.handle rte st now).run f).mem = ((fw.dispatch rte st now f).run f).mem := by
  rw [handle]
  simp only [Traced.bind_val, Traced.bind_mem, parseUdpIpv4_mem, hparse]
  exact ⟨rfl, rfl⟩

/-- Whatever the configuration, the tables and the frame: a frame that the forwarder does not drop
goes out, or waits, with the endpoints of its session, a valid IPv4 header checksum, and no other
byte changed. -/
theorem handle_onWire (hrte : rte.Ipv4CksumOk) (st : ForwardState σ) (now : UInt64) (f : Frame)
    (hres : ((fw.handle rte st now).run f).val.1.result ≠ .drop) :
    (fw.ToVip rte f ∧ ∃ p s,
        ((fw.handle rte st now).run f).val.2.sessions.lookupForward f.flowKey = some p ∧
        ((fw.handle rte st now).run f).val.2.sessions.heap p = some s ∧
        f.NatOnWire fw.cfg.recomputeUdpChecksum ((fw.handle rte st now).run f).mem
          (fw.cfg.gatewayIp, s.snatPort) (s.upstreamIp, s.upstreamPort)) ∨
      (fw.ToGateway rte f ∧ ∃ p s,
        ((fw.handle rte st now).run f).val.2.sessions.lookupReverse f.flowKey = some p ∧
        ((fw.handle rte st now).run f).val.2.sessions.heap p = some s ∧
        f.NatOnWire fw.cfg.recomputeUdpChecksum ((fw.handle rte st now).run f).mem
          (s.vipIp, s.vipPort) (s.clientIp, s.clientPort)) := by
  cases hparse : ((parseUdpIpv4 rte fw.cfg.verifyChecksum).run f).val with
  | error e =>
      have hdrop : ((fw.handle rte st now).run f).val.1.result = .drop := by
        rw [handle]
        simp only [Traced.bind_val, hparse, Traced.pure_val]
      exact absurd hdrop hres
  | ok v =>
      obtain rfl := view_of_parseUdpIpv4 hparse
      have hihl : kMinIpHdrLen ≤ f.ihl := (accepts_of_parseUdpIpv4 hparse).1.ihl_ge
      obtain ⟨hval, hmem⟩ := fw.handle_eq_dispatch st now hparse
      rw [hval] at hres ⊢
      rw [hmem]
      rw [dispatch] at hres ⊢
      split_ifs at hres ⊢ with hdst hgw
      · obtain ⟨p, s, hop, hp, hs, hframe⟩ := handleForward_sent hres
        refine Or.inl ⟨⟨hparse, hdst⟩, p, s, hp, hs, ?_⟩
        rw [hframe]
        exact fw.natOnWire_sendFrame hrte hihl hop _ _ _ _ _
      · obtain ⟨p, s, hop, hp, hs, hframe⟩ := handleReverse_sent hres
        refine Or.inr ⟨⟨hparse, hdst, hgw⟩, p, s, hp, hs, ?_⟩
        rw [hframe]
        exact fw.natOnWire_sendFrame hrte hihl hop _ _ _ _ _
      · exact absurd rfl hres

/-- A forwarder of the lab without a neighbor table, with one upstream. -/
def labForwarder : Forwarder Unit where
  cfg :=
    { vip := { ip := Config.ipv4From Config.vipIpOctets, port := Config.vipPort }
      gatewayIp := Config.ipv4From Config.gatewayIpOctets
      gatewayMac := Config.gatewayMac
      upstreamMac := Config.upstreamNhMac
      clientSideMac := Config.clientNhMac }
  picker := some fun _ _ => (some ⟨Config.ipv4From Config.upstream0IpOctets, 53⟩, ())

/-- A client frame sent by that forwarder. -/
theorem handle_onWire_lab :
    ∃ src dst, (Frame.udp [10, 0, 0, 9] [192, 168, 1, 100] 4000 53).NatOnWire false
      ((labForwarder.handle Rte.dpdk ⟨.new (Config.ipv4From Config.gatewayIpOctets), (), none⟩
        0).run (Frame.udp [10, 0, 0, 9] [192, 168, 1, 100] 4000 53)).mem src dst := by
  rcases labForwarder.handle_onWire Rte.dpdk_ipv4CksumOk
      ⟨.new (Config.ipv4From Config.gatewayIpOctets), (), none⟩ 0
      (.udp [10, 0, 0, 9] [192, 168, 1, 100] 4000 53) (by decide +kernel) with
    ⟨-, p, s, -, -, hwire⟩ | ⟨-, p, s, -, -, hwire⟩
  · exact ⟨_, _, hwire⟩
  · exact ⟨_, _, hwire⟩

end Forwarder

end VioletGateway
