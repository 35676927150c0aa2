import VioletGateway.Forward.Wire
import VioletGateway.Gateway.Bounds
import VioletGateway.Util.AddressText

/-!
# The packets that are traced

Model of `pkt_filter_match` of `pkt_filter.cpp` and of `trace_pkt` of `forward.cpp`, which selects the
packets whose way through the forwarder a build with `VGW_IO_TRACE` logs. The addresses of the two
filters are texts that `parse_mac` and `parse_ipv4_be` read at start.

A filter reads nothing outside the frame and matches exactly when all its fields that are set do
(`safe_pktFilterMatch`, `pktFilterMatch_val`). On the frames that the forwarder classifies, the trace
follows the classification (`Forwarder.trace_follows_classification`).
-/

set_option autoImplicit false

namespace VioletGateway

open Support Support.Traced

/-- Optional match criteria; a field that is not set matches everything. -/
structure PktFilter where
  srcMac : Option EtherAddr := none
  dstMac : Option EtherAddr := none
  srcIpBe : Option UInt32 := none
  dstIpBe : Option UInt32 := none

/-- A field is set and differs from what the frame holds; the frame is only read when it is set. -/
def differs {α : Type} [DecidableEq α] (field : Option α) (read : FrameM α) : FrameM Bool :=
  match field with
  | none => return false
  | some x => do return decide ((← read) ≠ x)

/-- `pkt_filter_match`. -/
def pktFilterMatch (filter : PktFilter) : FrameM Bool := do
  let len ← dataLen
  if len.toNat < kEthHdrLen then
    return false
  if ← differs filter.srcMac (readMac EtherHdr.srcAddr) then
    return false
  if ← differs filter.dstMac (readMac EtherHdr.dstAddr) then
    return false
  if !(filter.srcIpBe.isSome || filter.dstIpBe.isSome) then
    return true
  if len.toNat < kEthHdrLen + kMinIpHdrLen then
    return false
  if beToCpu16 (← read16 EtherHdr.etherType) ≠ etherTypeIpv4 then
    return false
  if (← read8 (kEthHdrLen + Ipv4Hdr.versionIhl)) >>> 4 ≠ 4 then
    return false
  if ← differs filter.srcIpBe (read32 (kEthHdrLen + Ipv4Hdr.srcAddr)) then
    return false
  if ← differs filter.dstIpBe (read32 (kEthHdrLen + Ipv4Hdr.dstAddr)) then
    return false
  return true

/-- `kVipFilter`. -/
def kVipFilter : PktFilter where
  dstMac := Util.parseMac "02:00:00:00:00:01".toList
  dstIpBe := Util.parseIpv4Be "192.168.1.100".toList

/-- `kGwDstFilter`. -/
def kGwDstFilter : PktFilter where
  dstIpBe := Util.parseIpv4Be "192.168.1.10".toList

/-- `trace_pkt`. -/
def tracePkt : FrameM Bool := do
  if ← pktFilterMatch kVipFilter then
    return true
  pktFilterMatch kGwDstFilter

/-! ## What a filter matches -/

/-- The frame has a whole IPv4 header of version 4. -/
structure Frame.HasIpv4 (f : Frame) : Prop where
  len : kEthHdrLen + kMinIpHdrLen ≤ f.dataLen.toNat
  ether : f.etherType = etherTypeIpv4
  version : f.versionIhl >>> 4 = 4

/-- Every field of the filter that is set agrees with the frame. -/
structure PktFilter.Matches (filter : PktFilter) (f : Frame) : Prop where
  len : kEthHdrLen ≤ f.dataLen.toNat
  srcMac : ∀ a ∈ filter.srcMac, f.mac EtherHdr.srcAddr = a
  dstMac : ∀ a ∈ filter.dstMac, f.mac EtherHdr.dstAddr = a
  ipv4 : filter.srcIpBe.isSome ∨ filter.dstIpBe.isSome → f.HasIpv4
  srcIp : ∀ a ∈ filter.srcIpBe, f.srcIp = a
  dstIp : ∀ a ∈ filter.dstIpBe, f.dstIp = a

section Differs

variable {α : Type} [DecidableEq α] {field : Option α} {read : FrameM α} {f : Frame}

theorem differs_mem (h : (read.run f).mem = f) : ((differs field read).run f).mem = f := by
  cases field with
  | none => rfl
  | some x => exact h

theorem differs_val : ((differs field read).run f).val = false ↔ ∀ a ∈ field, (read.run f).val = a := by
  cases field with
  | none => simp [differs]
  | some x => simp [differs]

theorem safe_differs (h : SafeOn read f) : SafeOn (differs field read) f := by
  cases field with
  | none => exact safe_pure _ _
  | some x => exact safe_bind h (safe_pure _ _)

end Differs

theorem pktFilterMatch_mem (filter : PktFilter) (f : Frame) :
    ((pktFilterMatch filter).run f).mem = f := by
  simp [pktFilterMatch, differs_mem]

/-- Every read is covered by the length check before it. -/
theorem safe_pktFilterMatch (filter : PktFilter) (f : Frame) : SafeOn (pktFilterMatch filter) f := by
  apply safe_bind_eq safe_dataLen (dataLen_val f) (dataLen_mem f)
  refine safe_ite (fun _ => safe_pure _ _) fun hfit => ?_
  have hlen : 14 ≤ f.dataLen.toNat := by simpa using hfit
  refine safe_bind_eq (safe_differs (safe_readBlock ?_)) rfl (differs_mem rfl) ?_
  · simp only [EtherHdr.srcAddr]
    omega
  refine safe_ite (fun _ => safe_pure _ _) fun _ => ?_
  refine safe_bind_eq (safe_differs (safe_readBlock ?_)) rfl (differs_mem rfl) ?_
  · simp only [EtherHdr.dstAddr]
    omega
  refine safe_ite (fun _ => safe_pure _ _) fun _ => ?_
  refine safe_ite (fun _ => safe_pure _ _) fun _ => ?_
  refine safe_ite (fun _ => safe_pure _ _) fun hfit => ?_
  have hip : 34 ≤ f.dataLen.toNat := by simpa using hfit
  apply safe_read16_bind (by simp only [EtherHdr.etherType]; omega)
  refine safe_ite (fun _ => safe_pure _ _) fun _ => ?_
  apply safe_read8_bind
    (by simp only [kEthHdrLen, EtherHdr.size, Ipv4Hdr.versionIhl]; omega)
  refine safe_ite (fun _ => safe_pure _ _) fun _ => ?_
  refine safe_bind_eq (safe_differs (safe_map (safe_readBlock ?_))) rfl (differs_mem rfl) ?_
  · simp only [kEthHdrLen, EtherHdr.size, Ipv4Hdr.srcAddr]
    omega
  refine safe_ite (fun _ => safe_pure _ _) fun _ => ?_
  refine safe_bind_eq (safe_differs (safe_map (safe_readBlock ?_))) rfl (differs_mem rfl) ?_
  · simp only [kEthHdrLen, EtherHdr.size, Ipv4Hdr.dstAddr]
    omega
  exact safe_ite (fun _ => safe_pure _ _) fun _ => safe_pure _ _

theorem guard_iff {c : Prop} [Decidable c] {b : Bool} :
    (if c then false else b) = true ↔ ¬c ∧ b = true := by
  by_cases hc : c <;> simp [hc]

theorem pktFilterMatch_val (filter : PktFilter) (f : Frame) :
    ((pktFilterMatch filter).run f).val = true ↔ filter.Matches f := by
  simp only [pktFilterMatch, bind_val, ite_val, pure_val, dataLen_val, dataLen_mem, read8_val,
    read8_mem, read16_val, read16_mem, differs_mem (readMac_mem f _), differs_mem (read32_mem f _),
    guard_iff, Bool.not_eq_true, differs_val, readMac_val]
  by_cases hneed : filter.srcIpBe.isSome ∨ filter.dstIpBe.isSome
  · have hip : (filter.srcIpBe.isSome || filter.dstIpBe.isSome) = true := by
      rwa [Bool.or_eq_true]
    simp only [hip, Bool.not_true, Bool.false_eq_true, if_false, guard_iff, Bool.not_eq_true,
      differs_val, read32_val, Nat.not_lt, not_not, and_true]
    constructor
    · rintro ⟨hlen, hsrc, hdst, hip, hether, hversion, hsrcIp, hdstIp⟩
      exact ⟨hlen, hsrc, hdst, fun _ => ⟨hip, hether, hversion⟩, hsrcIp, hdstIp⟩
    · intro h
      obtain ⟨hip, hether, hversion⟩ := h.ipv4 hneed
      exact ⟨h.len, h.srcMac, h.dstMac, hip, hether, hversion, h.srcIp, h.dstIp⟩
  · -- no address is asked for, so the IPv4 header is not looked at
    obtain ⟨hsrcIp, hdstIp⟩ : filter.srcIpBe = none ∧ filter.dstIpBe = none := by
      simpa [not_or] using hneed
    rw [if_pos (by simp [hsrcIp, hdstIp])]
    constructor
    · rintro ⟨hlen, hsrc, hdst, -⟩
      exact ⟨Nat.le_of_not_lt hlen, hsrc, hdst, fun h => absurd h hneed, by simp [hsrcIp],
        by simp [hdstIp]⟩
    · intro h
      exact ⟨Nat.not_lt.mpr h.len, h.srcMac, h.dstMac, rfl⟩

/-! ## What is traced -/

theorem tracePkt_mem (f : Frame) : (tracePkt.run f).mem = f := by
  simp [tracePkt, pktFilterMatch_mem]

theorem safe_tracePkt (f : Frame) : SafeOn tracePkt f :=
  safe_bind_eq (safe_pktFilterMatch kVipFilter f) rfl (pktFilterMatch_mem kVipFilter f)
    (safe_ite (fun _ => safe_pure _ _) fun _ => safe_pktFilterMatch kGwDstFilter f)

theorem tracePkt_val (f : Frame) :
    (tracePkt.run f).val = true ↔ kVipFilter.Matches f ∨ kGwDstFilter.Matches f := by
  rw [← pktFilterMatch_val, ← pktFilterMatch_val]
  simp only [tracePkt, bind_val, ite_val, pure_val, pktFilterMatch_mem]
  by_cases h : ((pktFilterMatch kVipFilter).run f).val = true
  · simp [h]
  · simp [h]

/-- The texts of the VIP filter are the addresses of the configuration. -/
theorem kVipFilter_eq :
    kVipFilter = { dstMac := some Config.gatewayMac,
                   dstIpBe := some (Config.ipv4From Config.vipIpOctets) } := by
  have hmac : Util.parseMac "02:00:00:00:00:01".toList = some Config.gatewayMac := by decide
  have hip : Util.parseIpv4Be "192.168.1.100".toList =
      some (Config.ipv4From Config.vipIpOctets) := by decide
  rw [kVipFilter, hmac, hip]

theorem kGwDstFilter_eq :
    kGwDstFilter = { dstIpBe := some (Config.ipv4From Config.gatewayIpOctets) } := by
  have hip : Util.parseIpv4Be "192.168.1.10".toList =
      some (Config.ipv4From Config.gatewayIpOctets) := by decide
  rw [kGwDstFilter, hip]

/-- The filters on a frame with an IPv4 header. -/
theorem tracePkt_of_hasIpv4 {f : Frame} (h : f.HasIpv4) :
    (tracePkt.run f).val = true ↔
      (f.mac EtherHdr.dstAddr = Config.gatewayMac ∧ f.dstIp = Config.ipv4From Config.vipIpOctets) ∨
      f.dstIp = Config.ipv4From Config.gatewayIpOctets := by
  have hlen : kEthHdrLen ≤ f.dataLen.toNat := (Nat.le_add_right _ _).trans h.len
  rw [tracePkt_val, kVipFilter_eq, kGwDstFilter_eq]
  refine or_congr ⟨fun hm => ⟨hm.dstMac _ rfl, hm.dstIp _ rfl⟩, ?_⟩ ⟨fun hm => hm.dstIp _ rfl, ?_⟩
  · rintro ⟨hmac, hip⟩
    exact ⟨hlen, by simp, by simpa using hmac, fun _ => h, by simp, by simpa using hip⟩
  · intro hip
    exact ⟨hlen, by simp, by simp, fun _ => h, by simp, by simpa using hip⟩

theorem Frame.Accepts.hasIpv4 {f : Frame} (h : f.Accepts) : f.HasIpv4 :=
  ⟨(Nat.le_add_right _ _).trans h.1.minLen, h.1.ether, h.1.version⟩

namespace Forwarder

variable {σ : Type} (rte : Rte) (fw : Forwarder σ)

/-- With the addresses of the configuration, selecting the packets to trace reads only the frame and
leaves it as it is. Of the frames that the parser accepts, those for the gateway's own address are all
traced, those for the VIP exactly when they are addressed to the gateway's MAC address, and no others,
whatever their port. -/
theorem trace_follows_classification (hvip : fw.cfg.vip.ip = Config.ipv4From Config.vipIpOctets)
    (hgw : fw.cfg.gatewayIp = Config.ipv4From Config.gatewayIpOctets) (f : Frame) :
    SafeOn tracePkt f ∧ (tracePkt.run f).mem = f ∧
    (fw.ToGateway rte f → (tracePkt.run f).val = true) ∧
    (fw.ToVip rte f →
      ((tracePkt.run f).val = true ↔ f.mac EtherHdr.dstAddr = Config.gatewayMac)) ∧
    (fw.Parses rte f → (tracePkt.run f).val = true →
      f.dstIp = fw.cfg.vip.ip ∨ f.dstIp = fw.cfg.gatewayIp) := by
  refine ⟨safe_tracePkt f, tracePkt_mem f, ?_, ?_, ?_⟩
  · rintro ⟨hparse, -, hip⟩
    exact (tracePkt_of_hasIpv4 hparse.accepts.hasIpv4).mpr (.inr (hip.trans hgw))
  · rintro ⟨hparse, hip, -⟩
    rw [tracePkt_of_hasIpv4 hparse.accepts.hasIpv4, hip, hvip]
    -- the two addresses differ, so the second filter does not match
    have hne : Config.ipv4From Config.vipIpOctets ≠ Config.ipv4From Config.gatewayIpOctets := by decide
    simp [hne]
  · intro hparse htraced
    rw [hvip, hgw]
    exact ((tracePkt_of_hasIpv4 hparse.accepts.hasIpv4).mp htraced).imp And.right id

/-- A client frame of the lab is traced. -/
theorem trace_follows_classification_lab :
    labForwarder.ToVip Rte.dpdk (.udp [10, 0, 0, 9] [192, 168, 1, 100] 4000 53) ∧
      (tracePkt.run (.udp [10, 0, 0, 9] [192, 168, 1, 100] 4000 53)).val = true := by
  have hto : labForwarder.ToVip Rte.dpdk (.udp [10, 0, 0, 9] [192, 168, 1, 100] 4000 53) :=
    ⟨rfl, by decide +kernel, by decide +kernel⟩
  have hspec := trace_follows_classification Rte.dpdk labForwarder rfl rfl
    (.udp [10, 0, 0, 9] [192, 168, 1, 100] 4000 53)
  exact ⟨hto, (hspec.2.2.2.1 hto).mpr (by decide +kernel)⟩

end Forwarder

end VioletGateway
