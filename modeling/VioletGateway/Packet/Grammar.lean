import VioletGateway.Packet.Parse
import VioletGateway.Packet.Checksum

/-!
# What the UDP/IPv4 parser accepts

`Frame.Accepts` collects the structural checks of `parse_udp_ipv4` on the bytes of a frame, with the
last length narrowed to 16 bits as in the source; `parseUdpIpv4_ok_iff` says that the parser
decides it.
The parser leaves the frame as it is, also when it verifies checksums (`parseUdpIpv4_mem`).

`Frame.InGrammar` is the same list with every sum taken as an exact integer. The two differ on the
frames whose UDP length takes the last sum past `65535` (`parse_matches_grammar_iff`): such a frame
is accepted although its payload ends outside the buffer.
-/

set_option autoImplicit false

namespace VioletGateway

open Support

namespace Frame

variable (f : Frame)

/-- Ethernet type in host byte order. -/
def etherType : UInt16 := beToCpu16 (f.u16 EtherHdr.etherType)

def versionIhl : UInt8 := f.u8 (kEthHdrLen + Ipv4Hdr.versionIhl)

/-- Length of the IPv4 header in bytes. -/
def ihl : Nat := ihlBytes f.versionIhl

def fragmentOffset : UInt16 := beToCpu16 (f.u16 (kEthHdrLen + Ipv4Hdr.fragmentOffset))

def nextProtoId : UInt8 := f.u8 (kEthHdrLen + Ipv4Hdr.nextProtoId)

/-- Length field of the UDP header. -/
def dgramLen : UInt16 := beToCpu16 (f.u16 (kEthHdrLen + f.ihl + UdpHdr.dgramLen))

/-- The checks before the last one. -/
structure Checked : Prop where
  minLen : kEthHdrLen + kMinIpHdrLen + kUdpHdrLen ≤ f.dataLen.toNat
  ether : f.etherType = etherTypeIpv4
  version : f.versionIhl >>> 4 = 4
  ihl_ge : kMinIpHdrLen ≤ f.ihl
  hdrLen : kEthHdrLen + f.ihl + kUdpHdrLen ≤ f.dataLen.toNat
  notMore : f.fragmentOffset &&& ipv4HdrMfFlag = 0
  notFragment : f.fragmentOffset &&& ipv4HdrOffsetMask = 0
  proto : f.nextProtoId = ipprotoUdp
  dgram_ge : kUdpHdrLen ≤ f.dgramLen.toNat

/-- The structural checks of `parse_udp_ipv4`; the last length is narrowed to 16 bits. -/
def Accepts : Prop :=
  f.Checked ∧ (kEthHdrLen + f.ihl + f.dgramLen.toNat) % 65536 ≤ f.dataLen.toNat

/-- The view that a successful parse returns. -/
def view : PacketView where
  eth := 0
  ip := kEthHdrLen
  udp := kEthHdrLen + f.ihl
  payload := kEthHdrLen + f.ihl + kUdpHdrLen
  payloadLen := narrow (f.dgramLen.toNat - kUdpHdrLen)

theorem ihl_le : f.ihl ≤ 60 := by
  rw [ihl, ihlBytes]
  omega

end Frame

theorem narrow_le_iff (n : Nat) (f : Frame) :
    f.dataLen ≥ narrow n ↔ n % 65536 ≤ f.dataLen.toNat := by
  rw [ge_iff_le, UInt16.le_iff_toNat_le]
  simp [narrow]

@[simp] theorem headersFit_val (n : Nat) (f : Frame) :
    ((headersFit (narrow n)).run f).val = decide (n % 65536 ≤ f.dataLen.toNat) := by
  simp [headersFit, narrow_le_iff]

@[simp] theorem headersFit_mem (need : UInt16) (f : Frame) : ((headersFit need).run f).mem = f := (rfl)

@[simp] theorem rteIpv4Cksum_mem (rte : Rte) (ip : Nat) (f : Frame) :
    ((rteIpv4Cksum rte ip).run f).mem = f := (rfl)

@[simp] theorem rteIpv4UdptcpCksum_mem (rte : Rte) (ip l4 : Nat) (f : Frame) :
    ((rteIpv4UdptcpCksum rte ip l4).run f).mem = f := by
  simp [rteIpv4UdptcpCksum]

@[simp] theorem udpChecksumOk_mem (rte : Rte) (ip udp : Nat) (f : Frame) :
    ((udpChecksumOk rte ip udp).run f).mem = f := by
  simp [udpChecksumOk]

@[simp] theorem verifyChecksums_mem (rte : Rte) (v : PacketView) (f : Frame) :
    ((verifyChecksums rte v).run f).mem = f := by
  simp [verifyChecksums]

/-- Parsing leaves the frame as it is. -/
@[simp] theorem parseUdpIpv4_mem (rte : Rte) (verify : Bool) (f : Frame) :
    ((parseUdpIpv4 rte verify).run f).mem = f := by
  simp [parseUdpIpv4]

/-- The parser as one chain of decisions on the bytes of the frame. -/
theorem parseUdpIpv4_val (rte : Rte) (verify : Bool) (f : Frame) :
    ((parseUdpIpv4 rte verify).run f).val =
      if ¬ kEthHdrLen + kMinIpHdrLen + kUdpHdrLen ≤ f.dataLen.toNat then .error .tooShort
      else if f.etherType ≠ etherTypeIpv4 then .error .notIpv4
      else if f.versionIhl >>> 4 ≠ 4 ∨ f.ihl < kMinIpHdrLen then .error .notIpv4
      else if ¬ kEthHdrLen + f.ihl + kUdpHdrLen ≤ f.dataLen.toNat then .error .tooShort
      else if f.fragmentOffset &&& ipv4HdrMfFlag ≠ 0 ∨ f.fragmentOffset &&& ipv4HdrOffsetMask ≠ 0 then
        .error .fragmented
      else if f.nextProtoId ≠ ipprotoUdp then .error .notUdp
      else if f.dgramLen.toNat < kUdpHdrLen then .error .tooShort
      else if ¬ (kEthHdrLen + f.ihl + f.dgramLen.toNat) % 65536 ≤ f.dataLen.toNat then
        .error .tooShort
      else if verify then ((verifyChecksums rte f.view).run f).val
      else .ok f.view := by
  have hle := f.ihl_le
  -- the first two lengths are small, so narrowing does not change them
  have hmin : (kEthHdrLen + kMinIpHdrLen + kUdpHdrLen) % 65536 =
      kEthHdrLen + kMinIpHdrLen + kUdpHdrLen := by decide
  have hhdr : (kEthHdrLen + f.ihl + kUdpHdrLen) % 65536 = kEthHdrLen + f.ihl + kUdpHdrLen := by
    simp only [kEthHdrLen, EtherHdr.size, kUdpHdrLen, UdpHdr.size]
    omega
  rw [parseUdpIpv4]
  simp only [Traced.bind_val, Traced.ite_val, Traced.pure_val, headersFit_val, headersFit_mem,
    read16_val, read16_mem, read8_val, read8_mem, Bool.not_eq_true', decide_eq_false_iff_not, hmin]
  rw [← hhdr]
  rfl

/-- On a frame that passes the structural checks, only the checksums are left to decide. -/
theorem parseUdpIpv4_of_accepts (rte : Rte) (verify : Bool) {f : Frame} (h : f.Accepts) :
    ((parseUdpIpv4 rte verify).run f).val =
      if verify then ((verifyChecksums rte f.view).run f).val else .ok f.view := by
  obtain ⟨hc, hfit⟩ := h
  have hversion : ¬(f.versionIhl >>> 4 ≠ 4 ∨ f.ihl < kMinIpHdrLen) :=
    not_or.mpr ⟨not_not.mpr hc.version, Nat.not_lt.mpr hc.ihl_ge⟩
  have hfrag : ¬(f.fragmentOffset &&& ipv4HdrMfFlag ≠ 0 ∨
      f.fragmentOffset &&& ipv4HdrOffsetMask ≠ 0) :=
    not_or.mpr ⟨not_not.mpr hc.notMore, not_not.mpr hc.notFragment⟩
  rw [parseUdpIpv4_val, if_neg (not_not.mpr hc.minLen), if_neg (not_not.mpr hc.ether),
    if_neg hversion, if_neg (not_not.mpr hc.hdrLen), if_neg hfrag, if_neg (not_not.mpr hc.proto),
    if_neg (Nat.not_lt.mpr hc.dgram_ge), if_neg (not_not.mpr hfit)]

/-- What returns without an error has passed its first check. -/
theorem of_check {ε α : Type} {c : Prop} [Decidable c] {e : ε} {r : Except ε α} {a : α}
    (h : (if c then .error e else r) = .ok a) : ¬c ∧ r = .ok a := by
  by_cases hc : c
  · rw [if_pos hc] at h
    exact nomatch h
  · rw [if_neg hc] at h
    exact ⟨hc, h⟩

/-- The parser accepts only frames that pass the structural checks. -/
theorem accepts_of_parseUdpIpv4 {rte : Rte} {verify : Bool} {f : Frame} {v : PacketView}
    (h : ((parseUdpIpv4 rte verify).run f).val = .ok v) : f.Accepts := by
  rw [parseUdpIpv4_val] at h
  obtain ⟨hmin, h⟩ := of_check h
  obtain ⟨hether, h⟩ := of_check h
  obtain ⟨hversion, h⟩ := of_check h
  obtain ⟨hhdr, h⟩ := of_check h
  obtain ⟨hfrag, h⟩ := of_check h
  obtain ⟨hproto, h⟩ := of_check h
  obtain ⟨hdgram, h⟩ := of_check h
  obtain ⟨hfit, -⟩ := of_check h
  exact ⟨⟨not_not.mp hmin, not_not.mp hether, not_not.mp (not_or.mp hversion).1,
    Nat.not_lt.mp (not_or.mp hversion).2, not_not.mp hhdr, not_not.mp (not_or.mp hfrag).1,
    not_not.mp (not_or.mp hfrag).2, not_not.mp hproto, Nat.not_lt.mp hdgram⟩, not_not.mp hfit⟩

/-- What the parser returns without checksum verification. -/
theorem parseUdpIpv4_ok_iff (rte : Rte) (f : Frame) (v : PacketView) :
    ((parseUdpIpv4 rte false).run f).val = .ok v ↔ f.Accepts ∧ v = f.view := by
  constructor
  · intro h
    have hacc := accepts_of_parseUdpIpv4 h
    rw [parseUdpIpv4_of_accepts rte false hacc] at h
    simp only [Bool.false_eq_true, if_false, Except.ok.injEq] at h
    exact ⟨hacc, h.symm⟩
  · rintro ⟨hacc, rfl⟩
    rw [parseUdpIpv4_of_accepts rte false hacc]
    simp

/-! ## The grammar -/

/-- The grammar of accepted frames, all sums taken as exact integers. -/
structure Frame.InGrammar (f : Frame) : Prop where
  ether : f.etherType = 0x0800
  version : f.versionIhl.toNat / 16 = 4
  ihl_ge : 20 ≤ f.ihl
  hdrLen : 14 + f.ihl + 8 ≤ f.dataLen.toNat
  notMore : f.fragmentOffset &&& 0x2000 = 0
  notFragment : f.fragmentOffset &&& 0x1fff = 0
  proto : f.nextProtoId = 17
  dgram_ge : 8 ≤ f.dgramLen.toNat
  dgramFits : 14 + f.ihl + f.dgramLen.toNat ≤ f.dataLen.toNat

/-- The parser, without checksum verification, accepts the frame exactly when it is in the grammar,
and the view it returns stays inside the frame. -/
def ParseMatchesGrammar (rte : Rte) (f : Frame) : Prop :=
  ((∃ v, ((parseUdpIpv4 rte false).run f).val = .ok v) ↔ f.InGrammar) ∧
    ∀ v, ((parseUdpIpv4 rte false).run f).val = .ok v →
      v.payload = 14 + f.ihl + 8 ∧ v.payloadLen.toNat = f.dgramLen.toNat - 8 ∧
        v.payload + v.payloadLen.toNat ≤ f.dataLen.toNat

theorem version_iff (x : UInt8) : x >>> 4 = 4 ↔ x.toNat / 16 = 4 := by
  rw [← UInt8.toNat_inj]
  have h : (x >>> 4).toNat = x.toNat / 16 := by
    rw [UInt8.toNat_shiftRight]
    simp [Nat.shiftRight_eq_div_pow]
  rw [h]
  rfl

/-- The grammar is the list of checks with the last length not narrowed. -/
theorem inGrammar_iff (f : Frame) :
    f.InGrammar ↔ f.Checked ∧ 14 + f.ihl + f.dgramLen.toNat ≤ f.dataLen.toNat := by
  constructor
  · intro h
    have h1 := h.ihl_ge
    have h2 := h.hdrLen
    refine ⟨⟨?_, h.ether, (version_iff _).mpr h.version, h.ihl_ge, h.hdrLen, h.notMore,
      h.notFragment, h.proto, h.dgram_ge⟩, h.dgramFits⟩
    simp only [kEthHdrLen, EtherHdr.size, kMinIpHdrLen, Ipv4Hdr.size, kUdpHdrLen, UdpHdr.size]
    omega
  · rintro ⟨h, hfit⟩
    exact ⟨h.ether, (version_iff _).mp h.version, h.ihl_ge, h.hdrLen, h.notMore, h.notFragment,
      h.proto, h.dgram_ge, hfit⟩

theorem payloadLen_view {f : Frame} : f.view.payloadLen.toNat = f.dgramLen.toNat - 8 := by
  have hlt := f.dgramLen.toNat_lt
  simp only [Frame.view, narrow, UInt16.toNat_ofNat', kUdpHdrLen, UdpHdr.size]
  exact Nat.mod_eq_of_lt (by omega)

/-- The parser matches its grammar on exactly the frames that fail a check before the last one or
whose exact length sum fits into 16 bits. -/
theorem parse_matches_grammar_iff (rte : Rte) (f : Frame) :
    ParseMatchesGrammar rte f ↔ ¬(f.Checked ∧ 65536 ≤ 14 + f.ihl + f.dgramLen.toNat) := by
  have hihl := f.ihl_le
  have hdgram := f.dgramLen.toNat_lt
  constructor
  · rintro ⟨hiff, -⟩ ⟨hc, hbig⟩
    -- the narrowed length is below the header length, so the last check passes
    have hhdr : 14 + f.ihl + 8 ≤ f.dataLen.toNat := hc.hdrLen
    have hacc : f.Accepts := by
      refine ⟨hc, ?_⟩
      simp only [kEthHdrLen, EtherHdr.size]
      omega
    have hok := (parseUdpIpv4_ok_iff rte f f.view).mpr ⟨hacc, rfl⟩
    have hfit := (hiff.mp ⟨_, hok⟩).dgramFits
    have hlen := f.dataLen.toNat_lt
    omega
  · intro hnot
    -- without the overflow both sums are the same
    have hexact : f.Checked →
        (14 + f.ihl + f.dgramLen.toNat) % 65536 = 14 + f.ihl + f.dgramLen.toNat := by
      intro hc
      have hsmall : ¬ 65536 ≤ 14 + f.ihl + f.dgramLen.toNat := fun hbig => hnot ⟨hc, hbig⟩
      exact Nat.mod_eq_of_lt (by omega)
    refine ⟨?_, ?_⟩
    · rw [inGrammar_iff]
      constructor
      · rintro ⟨v, hv⟩
        obtain ⟨⟨hc, hfit⟩, -⟩ := (parseUdpIpv4_ok_iff rte f v).mp hv
        refine ⟨hc, ?_⟩
        rw [← hexact hc]
        exact hfit
      · rintro ⟨hc, hfit⟩
        refine ⟨f.view, (parseUdpIpv4_ok_iff rte f f.view).mpr ⟨⟨hc, ?_⟩, rfl⟩⟩
        rw [← hexact hc] at hfit
        exact hfit
    · intro v hv
      obtain ⟨⟨hc, hfit⟩, rfl⟩ := (parseUdpIpv4_ok_iff rte f v).mp hv
      have hfit' : 14 + f.ihl + f.dgramLen.toNat ≤ f.dataLen.toNat := by
        rw [← hexact hc]
        exact hfit
      have hge : 8 ≤ f.dgramLen.toNat := hc.dgram_ge
      refine ⟨rfl, payloadLen_view, ?_⟩
      rw [payloadLen_view]
      show 14 + f.ihl + 8 + (f.dgramLen.toNat - 8) ≤ f.dataLen.toNat
      omega

/-- A frame from a byte string. -/
def Frame.ofBytes (bs : List UInt8) : Frame where
  data := fun i => bs.getD i 0
  room := 2048
  dataLen := UInt16.ofNat bs.length

/-- The bytes of an address, a port or a length in network byte order. -/
def beBytes (n : Nat) (x : Nat) : List UInt8 :=
  (List.range n).reverse.map fun i => UInt8.ofNat (x / 256 ^ i)

/-- A UDP/IPv4 frame without payload, with the given length field; octets and ports as written. -/
def Frame.udp (src dst : List UInt8) (srcPort dstPort : Nat) (dgramLen : Nat := 8) : Frame :=
  .ofBytes ([2, 0, 0, 0, 0, 1] ++ [2, 0, 0, 0, 0, 9] ++ [0x08, 0x00] ++
    [0x45, 0, 0, 28, 0, 0, 0, 0, 64, 17, 0, 0] ++ src ++ dst ++
    beBytes 2 srcPort ++ beBytes 2 dstPort ++ beBytes 2 dgramLen ++ [0, 0])

/-- A frame of 42 bytes whose UDP header claims 65535 bytes. -/
def overlongFrame : Frame := .udp [10, 0, 0, 9] [192, 168, 1, 100] 4000 53 65535

/-- The parser accepts the overlong frame, which is outside its grammar. -/
theorem overlongFrame_not_matches : ¬ ParseMatchesGrammar Rte.dpdk overlongFrame := by
  intro h
  have hok : ((parseUdpIpv4 Rte.dpdk false).run overlongFrame).val = .ok overlongFrame.view := by
    decide +kernel
  have hfit := (h.1.mp ⟨_, hok⟩).dgramFits
  exact absurd hfit (by decide +kernel)

end VioletGateway
