import VioletGateway.Forward.Wire

/-!
# Verification of the IPv4 header checksum

The parser recomputes the checksum and compares it with the field. The standard asks for something
else: a header is valid when its words, the checksum included, sum to `0xffff` in one's complement.
The two agree unless the other words already sum to `0xffff` and the field holds `0xffff`, the second
representation of zero, where the recomputed value is `0`. The UDP check next to it treats the two
representations as equal; these headers are exactly the ones that the IPv4 check gets wrong
(`parse_verifies_iff`).
-/

set_option autoImplicit false

namespace VioletGateway

open Support

namespace Frame

/-- The frame with the IPv4 checksum field cleared. -/
def clearIpCksum (f : Frame) : Frame := f.put (kEthHdrLen + Ipv4Hdr.hdrChecksum) (le16 0)

theorem verifyChecksums_val (rte : Rte) (f : Frame) :
    ((verifyChecksums rte f.view).run f).val =
      if f.u16 (kEthHdrLen + Ipv4Hdr.hdrChecksum) ≠ rte.ipv4Cksum f.clearIpCksum.ipv4Header then
        .error .badIpChecksum
      else if !((udpChecksumOk rte kEthHdrLen (kEthHdrLen + f.ihl)).run f).val then
        .error .badUdpChecksum
      else .ok f.view := by
  rw [verifyChecksums]
  simp only [Traced.bind_val, Traced.ite_val, Traced.pure_val, read16_val, read16_mem,
    write16_mem, rteIpv4Cksum_mem, put_put_self, put_u16_self, view]
  rfl

/-- With an absent UDP checksum only the IPv4 header decides. -/
theorem parse_verify_ok_iff (rte : Rte) {f : Frame} (hacc : f.Accepts)
    (hudp : f.u16 (kEthHdrLen + f.ihl + UdpHdr.dgramCksum) = 0) :
    (∃ v, ((parseUdpIpv4 rte true).run f).val = .ok v) ↔
      f.u16 (kEthHdrLen + Ipv4Hdr.hdrChecksum) = rte.ipv4Cksum f.clearIpCksum.ipv4Header := by
  have hok : ((udpChecksumOk rte kEthHdrLen (kEthHdrLen + f.ihl)).run f).val = true := by
    unfold udpChecksumOk
    simp only [Traced.bind_val, read16_val, hudp, if_true, Traced.pure_val]
  rw [parseUdpIpv4_of_accepts rte true hacc, if_pos rfl, verifyChecksums_val, hok]
  by_cases heq : f.u16 (kEthHdrLen + Ipv4Hdr.hdrChecksum) =
      rte.ipv4Cksum f.clearIpCksum.ipv4Header
  · rw [if_neg (not_not.mpr heq)]
    exact iff_of_true ⟨_, rfl⟩ heq
  · rw [if_pos heq]
    exact iff_of_false (fun ⟨v, hv⟩ => nomatch hv) heq

theorem length_ipv4Header_le (f : Frame) : f.ipv4Header.length ≤ 60 := by
  rw [ipv4Header, List.length_ofFn]
  exact ihl_le _

/-- The check of the IPv4 header agrees with the standard exactly if the header does not use the
other representation of zero. -/
theorem parse_verifies_iff {rte : Rte} (hrte : rte.Ipv4CksumOk) {f : Frame} (hacc : f.Accepts)
    (hudp : f.u16 (kEthHdrLen + f.ihl + UdpHdr.dgramCksum) = 0) :
    ((∃ v, ((parseUdpIpv4 rte true).run f).val = .ok v) ↔
        onesSum (wordsBe f.ipv4Header) = 0xffff) ↔
      ¬(f.u16 (kEthHdrLen + Ipv4Hdr.hdrChecksum) = 0xffff ∧
        onesSum (wordsBe f.clearIpCksum.ipv4Header) = 0xffff) := by
  have hihl := hacc.1.ihl_ge
  have hlt := (f.u16 (kEthHdrLen + Ipv4Hdr.hdrChecksum)).toNat_lt
  -- the recomputed value is the complement of the words around the field
  have hcalc : f.u16 (kEthHdrLen + Ipv4Hdr.hdrChecksum) =
        rte.ipv4Cksum f.clearIpCksum.ipv4Header ↔
      (f.u16 (kEthHdrLen + Ipv4Hdr.hdrChecksum)).toNat =
        65535 - onesSum (wordsLe f.clearIpCksum.ipv4Header) := by
    rw [← UInt16.toNat_inj, hrte _ (length_ipv4Header_le _)]
  have hfield : f.u16 (kEthHdrLen + Ipv4Hdr.hdrChecksum) = 0xffff ↔
      (f.u16 (kEthHdrLen + Ipv4Hdr.hdrChecksum)).toNat = 65535 := UInt16.toNat_inj.symm
  have hsum := onesSum_eq_max_iff_complement
    (wordsLe (List.ofFn (f.data.load kEthHdrLen Ipv4Hdr.hdrChecksum)))
    (wordsLe (List.ofFn (f.data.load (kEthHdrLen + Ipv4Hdr.srcAddr) (f.ihl - Ipv4Hdr.srcAddr))))
    wordsLe_lt wordsLe_lt hlt
  have hzero : wordsLe f.clearIpCksum.ipv4Header = _ := wordsLe_ipv4Header_put f hihl 0
  rw [UInt16.toNat_zero] at hzero
  rw [← wordsLe_ipv4Header hihl, ← hzero] at hsum
  rw [parse_verify_ok_iff rte hacc hudp, hcalc, onesSum_wordsBe_eq_max_iff,
    onesSum_wordsBe_eq_max_iff, hsum, hfield]
  omega

/-- A client frame with the given identification and IPv4 checksum. -/
def identified (id cksum : UInt16) : Frame :=
  ((Frame.udp [10, 0, 0, 9] [192, 168, 1, 100] 4000 53).put (kEthHdrLen + 4)
    (le16 (cpuToBe16 id))).put (kEthHdrLen + Ipv4Hdr.hdrChecksum) (le16 cksum)

/-- The words of this header sum to `0xffff` without its checksum. -/
def altZeroFrame : Frame := identified 0xaebc 0xffff

theorem accepts_altZeroFrame : altZeroFrame.Accepts :=
  ((parseUdpIpv4_ok_iff Rte.dpdk altZeroFrame altZeroFrame.view).mp (by decide +kernel)).1

/-- The header of `altZeroFrame` is valid, and the parser rejects it. -/
theorem altZeroFrame_rejected :
    altZeroFrame.Accepts ∧
      altZeroFrame.u16 (kEthHdrLen + altZeroFrame.ihl + UdpHdr.dgramCksum) = 0 ∧
      ¬((∃ v, ((parseUdpIpv4 Rte.dpdk true).run altZeroFrame).val = .ok v) ↔
        onesSum (wordsBe altZeroFrame.ipv4Header) = 0xffff) := by
  refine ⟨accepts_altZeroFrame, by decide +kernel, fun hiff => ?_⟩
  obtain ⟨v, hv⟩ := hiff.mpr (by decide +kernel)
  have hbad : ((parseUdpIpv4 Rte.dpdk true).run altZeroFrame).val = .error .badIpChecksum := by
    decide +kernel
  rw [hbad] at hv
  cases hv

/-- On a client frame with another identification the two agree. -/
theorem identified_verifies :
    (∃ v, ((parseUdpIpv4 Rte.dpdk true).run (identified 1 0xbbae)).val = .ok v) ↔
      onesSum (wordsBe (identified 1 0xbbae).ipv4Header) = 0xffff :=
  (parse_verifies_iff Rte.dpdk_ipv4CksumOk
    ((parseUdpIpv4_ok_iff Rte.dpdk _ (identified 1 0xbbae).view).mp (by decide +kernel)).1
    (by decide +kernel)).mpr (by decide +kernel)

end Frame

end VioletGateway
