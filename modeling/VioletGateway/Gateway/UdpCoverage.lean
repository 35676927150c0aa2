import VioletGateway.Gateway.Bounds

/-!
# What the UDP checksum covers

`rte_ipv4_udptcp_cksum` sums `total_length - IHL * 4` bytes from the UDP header on, while a datagram
has as many bytes as its UDP length says, and the frame ends at `data_len`. The parser relates the
UDP length to `data_len` and never looks at `total_length`, so in a received frame the three are
independent.

`UdpCovered` says that the checksum compared and written is the one of the datagram and that no byte
behind the frame is read; `udpCovered_iff` says for which frames this holds.
-/

set_option autoImplicit false

namespace VioletGateway

open Support Traced

namespace Frame

/-! ## The bytes under the UDP checksum -/

def totalLength (f : Frame) : UInt16 := beToCpu16 (f.u16 (kEthHdrLen + Ipv4Hdr.totalLength))

/-- The UDP checksum field, as it stands in memory. -/
def udpCksum (f : Frame) : UInt16 := f.u16 (kEthHdrLen + f.ihl + UdpHdr.dgramCksum)

/-- The frame with the UDP checksum field cleared. -/
def clearUdpCksum (f : Frame) : Frame := f.put (kEthHdrLen + f.ihl + UdpHdr.dgramCksum) (le16 0)

/-- The fixed part of the IPv4 header. -/
def fixedHeader (f : Frame) : List UInt8 := List.ofFn (f.data.load kEthHdrLen Ipv4Hdr.size)

/-- `n` bytes from offset `off` of the UDP header on, with the checksum field cleared. -/
def l4Bytes (f : Frame) (off n : Nat) : List UInt8 :=
  List.ofFn (f.clearUdpCksum.data.load (kEthHdrLen + f.ihl + off) n)

/-- The bytes under the checksum of a datagram of `n` bytes. -/
def underCksum (f : Frame) (n : Nat) : List UInt8 :=
  pseudoHeader f.fixedHeader n ++ f.l4Bytes 0 n

/-- The checksum of a datagram of `n` bytes, in host byte order. -/
def cksumOver (f : Frame) (n : Nat) : Nat := udpComplement (onesSum (wordsBe (f.underCksum n)))

/-- The checksum that RFC 768 asks for: of the pseudo-header and of as many bytes as the UDP length
says. -/
def rfc768 (f : Frame) : Nat := f.cksumOver f.dgramLen.toNat

section Values

variable {f : Frame}

theorem length_fixedHeader (f : Frame) : f.fixedHeader.length = Ipv4Hdr.size := List.length_ofFn

theorem getD_fixedHeader (f : Frame) : f.fixedHeader.getD 9 0 = f.nextProtoId := by
  rw [fixedHeader, List.getD_eq_getElem?_getD, List.getElem?_ofFn]
  rfl

theorem fixedHeader_clearUdpCksum (hihl : kMinIpHdrLen ≤ f.ihl) :
    f.clearUdpCksum.fixedHeader = f.fixedHeader := by
  refine congrArg List.ofFn (ByteMem.load_store_of_disjoint (Or.inl ?_))
  exact Nat.le_trans (Nat.add_le_add_left hihl _) (Nat.le_add_right _ _)

theorem ihl_clearUdpCksum (hihl : kMinIpHdrLen ≤ f.ihl) : f.clearUdpCksum.ihl = f.ihl :=
  (sameShape_put hihl (le16 0) rewritable_udpCksum).ihl

theorem totalLength_clearUdpCksum (hihl : kMinIpHdrLen ≤ f.ihl) :
    f.clearUdpCksum.totalLength = f.totalLength := by
  refine congrArg beToCpu16 (u16_put (Or.inl ?_))
  simp only [kMinIpHdrLen, Ipv4Hdr.size] at hihl
  simp only [kEthHdrLen, EtherHdr.size, Ipv4Hdr.totalLength, UdpHdr.dgramCksum]
  omega

theorem length_l4Bytes (f : Frame) (off n : Nat) : (f.l4Bytes off n).length = n := List.length_ofFn

theorem l4Bytes_add (f : Frame) (m n : Nat) :
    f.l4Bytes 0 (m + n) = f.l4Bytes 0 m ++ f.l4Bytes m n := by
  rw [l4Bytes, ByteMem.ofFn_load_add]
  rfl

end Values

end Frame

/-- The value that `udp_checksum_ok` compares the field with and `refresh_udp_checksum` writes. -/
def Frame.calcUdp (rte : Rte) (f : Frame) : UInt16 :=
  ((rteIpv4UdptcpCksum rte kEthHdrLen (kEthHdrLen + f.ihl)).run f.clearUdpCksum).val

namespace Frame

variable {rte : Rte} {f : Frame}

theorem udpChecksumOk_val (rte : Rte) (f : Frame) :
    ((udpChecksumOk rte kEthHdrLen (kEthHdrLen + f.ihl)).run f).val =
      decide (f.udpCksum = 0 ∨ f.udpCksum = f.calcUdp rte ∨
        (f.udpCksum = 0xffff ∧ f.calcUdp rte = 0) ∨ (f.udpCksum = 0 ∧ f.calcUdp rte = 0xffff)) := by
  rw [udpChecksumOk]
  simp only [Traced.bind_val, Traced.ite_val, Traced.pure_val, read16_val, read16_mem, write16_mem,
    rteIpv4UdptcpCksum_mem]
  show (if f.udpCksum = 0 then true else if f.udpCksum = f.calcUdp rte then true else
    (f.udpCksum == 0xffff && f.calcUdp rte == 0) || (f.udpCksum == 0 && f.calcUdp rte == 0xffff)) = _
  by_cases h₁ : f.udpCksum = 0
  · simp [h₁]
  · by_cases h₂ : f.udpCksum = f.calcUdp rte
    · simp [h₂]
    · simp [h₁, h₂, beq_eq_decide]

/-- What is compared and written, by the two length fields of the IPv4 header. -/
theorem calcUdp_eq (rte : Rte) (hihl : kMinIpHdrLen ≤ f.ihl) :
    f.calcUdp rte =
      if f.totalLength.toNat < f.ihl then rte.ipv4UdptcpCksum f.fixedHeader none
      else rte.ipv4UdptcpCksum f.fixedHeader (some (f.l4Bytes 0 (f.totalLength.toNat - f.ihl))) := by
  have hhdr := fixedHeader_clearUdpCksum hihl
  have htotal := totalLength_clearUdpCksum hihl
  have hlen := ihl_clearUdpCksum hihl
  have hrun : f.calcUdp rte =
      if f.clearUdpCksum.totalLength.toNat < f.clearUdpCksum.ihl then
        rte.ipv4UdptcpCksum f.clearUdpCksum.fixedHeader none
      else rte.ipv4UdptcpCksum f.clearUdpCksum.fixedHeader (some (List.ofFn
        (f.clearUdpCksum.data.load (kEthHdrLen + f.ihl)
          (f.clearUdpCksum.totalLength.toNat - f.clearUdpCksum.ihl)))) := by
    rw [calcUdp, rteIpv4UdptcpCksum]
    simp only [Traced.bind_val, Traced.ite_val, Traced.pure_val, read8_val, read8_mem, read16_val,
      read16_mem, readBlock_val, readBlock_mem]
    rfl
  rw [hrun, hhdr, htotal, hlen]
  rfl

/-- The complement in the other byte order. -/
theorem udpComplement_wordsBe (bs : List UInt8) :
    udpComplement (onesSum (wordsLe bs)) % 256 * 256 + udpComplement (onesSum (wordsLe bs)) / 256 =
      udpComplement (onesSum (wordsBe bs)) := by
  have hswap := onesSum_wordsBe bs
  have hlt : onesSum (wordsLe bs) < 65536 := onesSum_lt wordsLe_lt
  simp only [udpComplement]
  split_ifs <;> omega

/-- The complement completes the sum to a multiple of `65535`, and is the only number to do so. -/
theorem udpComplement_eq_iff {ws : List Nat} (hws : ∀ w ∈ ws, w < 65536) {k : Nat} (hpos : 0 < k)
    (hlt : k < 65536) : udpComplement (onesSum ws) = k ↔ (ws.sum + k) % 65535 = 0 := by
  have hmod := onesSum_mod ws
  have hsum := onesSum_lt hws
  rw [udpComplement]
  split_ifs <;> omega

theorem udpComplement_pos {ws : List Nat} (hws : ∀ w ∈ ws, w < 65536) :
    0 < udpComplement (onesSum ws) ∧ udpComplement (onesSum ws) < 65536 := by
  have hsum := onesSum_lt hws
  rw [udpComplement]
  split_ifs <;> omega

theorem udpComplement_eq_udpComplement_iff {xs ys : List Nat} (hxs : ∀ w ∈ xs, w < 65536)
    (hys : ∀ w ∈ ys, w < 65536) :
    udpComplement (onesSum xs) = udpComplement (onesSum ys) ↔
      xs.sum % 65535 = ys.sum % 65535 := by
  obtain ⟨hpos, hlt⟩ := udpComplement_pos hys
  have hself := (udpComplement_eq_iff hys hpos hlt).mp rfl
  rw [udpComplement_eq_iff hxs hpos hlt]
  omega

/-! ## The sum by the number of bytes -/

theorem sum_pseudoHeader {hdr : List UInt8} (hhdr : hdr.length = Ipv4Hdr.size) {n : Nat}
    (hn : n < 65536) :
    (wordsBe (pseudoHeader hdr n)).sum =
      (wordsBe ((hdr.drop 12).take 8)).sum + (hdr.getD 9 0).toNat + n := by
  have hlen : ((hdr.drop 12).take 8).length = 8 := by simp [hhdr]
  rw [pseudoHeader, sum_wordsBe_append, hlen]
  simp only [wordsAt, wordsBe, Nat.reduceMod, if_true, List.sum_cons, List.sum_nil,
    UInt8.toNat_zero, UInt8.toNat_ofNat']
  omega

/-- The sum grows by the length and by the words of the additional bytes. -/
theorem sum_underCksum_add (f : Frame) {m n : Nat} (h : m + n < 65536) :
    (wordsBe (f.underCksum (m + n))).sum =
      (wordsBe (f.underCksum m)).sum + ((wordsAt m (f.l4Bytes m n)).sum + n) := by
  have hhdr := length_fixedHeader f
  have hfirst : ∀ k, (wordsBe (f.underCksum k)).sum =
      (wordsBe (pseudoHeader f.fixedHeader k)).sum + (wordsBe (f.l4Bytes 0 k)).sum := by
    intro k
    rw [underCksum, sum_wordsBe_append, length_pseudoHeader hhdr]
    rfl
  rw [hfirst, hfirst, l4Bytes_add, sum_wordsBe_append, length_l4Bytes, sum_pseudoHeader hhdr h,
    sum_pseudoHeader hhdr (by omega)]
  omega

theorem cksumOver_pos (f : Frame) (n : Nat) : 0 < f.cksumOver n :=
  (udpComplement_pos wordsBe_lt).1

theorem cksumOver_eq (f : Frame) (n : Nat) {k : Nat} (hpos : 0 < k) (hlt : k < 65536) :
    f.cksumOver n = k ↔ ((wordsBe (f.underCksum n)).sum + k) % 65535 = 0 :=
  udpComplement_eq_iff wordsBe_lt hpos hlt

/-- The bytes in which the two lengths differ do not change the sum. -/
def GapVanishes (f : Frame) (m n : Nat) : Prop :=
  ((wordsAt (min m n) (f.l4Bytes (min m n) (max m n - min m n))).sum + (max m n - min m n)) % 65535 = 0

theorem cksumOver_eq_iff (f : Frame) {m n : Nat} (hm : m < 65536) (hn : n < 65536) :
    f.cksumOver m = f.cksumOver n ↔ f.GapVanishes m n := by
  simp only [cksumOver, GapVanishes]
  rw [udpComplement_eq_udpComplement_iff wordsBe_lt wordsBe_lt]
  rcases Nat.le_total m n with hle | hle
  · have hsum := sum_underCksum_add f (m := m) (n := n - m) (by omega)
    rw [Nat.add_sub_cancel' hle] at hsum
    rw [min_eq_left hle, max_eq_right hle, hsum]
    omega
  · have hsum := sum_underCksum_add f (m := n) (n := m - n) (by omega)
    rw [Nat.add_sub_cancel' hle] at hsum
    rw [min_eq_right hle, max_eq_left hle, hsum]
    omega

/-! ## The values -/

section Main

variable {c : UInt16}

/-- With a `total_length` that covers the header, the value is the checksum over the bytes behind it. -/
theorem toNat_calcUdp (hrte : rte.UdptcpCksumOk c) (hc : f.Checked)
    (hge : f.ihl ≤ f.totalLength.toNat) :
    (beToCpu16 (f.calcUdp rte)).toNat = f.cksumOver (f.totalLength.toNat - f.ihl) := by
  have hlt := f.totalLength.toNat_lt
  have hlen : (f.l4Bytes 0 (f.totalLength.toNat - f.ihl)).length ≤ 65535 := by
    rw [length_l4Bytes]
    omega
  have hval := hrte.sum _ _ (length_fixedHeader f) ((getD_fixedHeader f).trans hc.proto) hlen
  rw [length_l4Bytes] at hval
  rw [calcUdp_eq rte hc.ihl_ge, if_neg (Nat.not_lt.mpr hge)]
  show (bswap16 _).toNat = _
  rw [bswap16_toNat, hval]
  exact udpComplement_wordsBe _

theorem calcUdp_short (hrte : rte.UdptcpCksumOk c) (hc : f.Checked)
    (hlt : f.totalLength.toNat < f.ihl) : f.calcUdp rte = c := by
  rw [calcUdp_eq rte hc.ihl_ge, if_pos hlt, hrte.short]

/-- The UDP checksum field after `refresh_udp_checksum`. -/
def refreshedUdp (rte : Rte) (f : Frame) : UInt16 :=
  ((refreshUdpChecksum rte kEthHdrLen (kEthHdrLen + f.ihl)).run f).mem.u16
    (kEthHdrLen + f.ihl + UdpHdr.dgramCksum)

theorem refreshedUdp_eq (rte : Rte) (f : Frame) :
    f.refreshedUdp rte = if f.calcUdp rte = 0 then 0xffff else f.calcUdp rte := by
  rw [refreshedUdp, refreshUdpChecksum]
  simp only [Traced.bind_mem, Traced.ite_mem, Traced.pure_mem, write16_mem,
    read16_val, read16_mem, rteIpv4UdptcpCksum_mem, put_put_self, u16_put_self]
  show (if f.calcUdp rte = 0 then _ else _ : Frame).u16 _ = _
  split_ifs with hzero
  · exact u16_put_self _ _
  · exact u16_put_self _ _

/-! ## The accesses -/

theorem safe_rteIpv4UdptcpCksum_iff {g : Frame} (h : kEthHdrLen + Ipv4Hdr.size ≤ g.dataLen.toNat)
    (rte : Rte) (l4 : Nat) :
    SafeOn (rteIpv4UdptcpCksum rte kEthHdrLen l4) g ↔
      (g.ihl ≤ g.totalLength.toNat →
        l4 + (g.totalLength.toNat - g.ihl) ≤ g.dataLen.toNat) := by
  have hlen : 34 ≤ g.dataLen.toNat := h
  have hver : 14 + 0 + 1 ≤ g.dataLen.toNat := by omega
  have htot : 14 + 2 + 2 ≤ g.dataLen.toNat := by omega
  constructor
  · intro hsafe hge
    -- the fourth access is the one to the L4 bytes
    obtain ⟨-, hsafe⟩ := safe_bind_iff.mp hsafe
    obtain ⟨-, hsafe⟩ := safe_bind_iff.mp hsafe
    obtain ⟨-, hsafe⟩ := safe_bind_iff.mp hsafe
    have hnot : ¬ g.totalLength.toNat < g.ihl := Nat.not_lt.mpr hge
    have hrest : SafeOn (readBlock l4 (g.totalLength.toNat - g.ihl) >>= fun payload =>
        pure (rte.ipv4UdptcpCksum (List.ofFn (g.data.load kEthHdrLen Ipv4Hdr.size))
          (some (List.ofFn payload)))) g := by
      intro a ha
      apply hsafe a
      have hite : ∀ {x y : FrameM UInt16},
          (if g.totalLength.toNat < g.ihl then x else y) = y := if_neg hnot
      show a ∈ ((if g.totalLength.toNat < g.ihl then _ else _ : FrameM UInt16).run g).log
      rw [hite]
      exact ha
    exact (safe_bind_iff.mp hrest).1 _ (List.mem_singleton.mpr rfl)
  · intro hfit
    refine safe_read8_bind hver (safe_read16_bind htot ?_)
    refine safe_bind (safe_readBlock h) (safe_ite (fun _ => safe_pure _ _) fun hnot => ?_)
    exact safe_bind (safe_readBlock (hfit (Nat.not_lt.mp hnot))) (safe_pure _ _)

/-- The accesses of the computation on the cleared frame. -/
theorem safe_calcUdp_iff (hc : f.Checked) (rte : Rte) :
    SafeOn (rteIpv4UdptcpCksum rte kEthHdrLen (kEthHdrLen + f.ihl)) f.clearUdpCksum ↔
      (f.ihl ≤ f.totalLength.toNat → kEthHdrLen + f.totalLength.toNat ≤ f.dataLen.toNat) := by
  have hlen : kEthHdrLen + Ipv4Hdr.size ≤ f.clearUdpCksum.dataLen.toNat :=
    Nat.le_trans (by decide) hc.minLen
  rw [safe_rteIpv4UdptcpCksum_iff hlen, ihl_clearUdpCksum hc.ihl_ge,
    totalLength_clearUdpCksum hc.ihl_ge]
  apply forall_congr'
  intro hge
  rw [Nat.add_assoc, Nat.add_sub_cancel' hge]
  rfl

theorem safe_refreshUdpChecksum_iff (hc : f.Checked) (rte : Rte) :
    SafeOn (refreshUdpChecksum rte kEthHdrLen (kEthHdrLen + f.ihl)) f ↔
      SafeOn (rteIpv4UdptcpCksum rte kEthHdrLen (kEthHdrLen + f.ihl)) f.clearUdpCksum := by
  have hfield : kEthHdrLen + f.ihl + UdpHdr.dgramCksum + 2 ≤ f.dataLen.toNat := hc.hdrLen
  constructor
  · intro hsafe
    exact (safe_bind_iff.mp (safe_bind_iff.mp hsafe).2).1
  · intro hcalc
    apply safe_bind_eq (safe_write16 hfield) rfl (write16_mem f _ 0)
    apply safe_bind_eq hcalc rfl (rteIpv4UdptcpCksum_mem rte _ _ _)
    refine safe_bind_eq (safe_write16 hfield) rfl (write16_mem _ _ _) ?_
    exact safe_read16_bind hfield (safe_ite (fun _ => safe_write16 hfield) fun _ => safe_pure _ _)

theorem safe_udpChecksumOk (hc : f.Checked)
    (hcalc : SafeOn (rteIpv4UdptcpCksum rte kEthHdrLen (kEthHdrLen + f.ihl)) f.clearUdpCksum) :
    SafeOn (udpChecksumOk rte kEthHdrLen (kEthHdrLen + f.ihl)) f := by
  have hfield : kEthHdrLen + f.ihl + UdpHdr.dgramCksum + 2 ≤ f.dataLen.toNat := hc.hdrLen
  refine safe_read16_bind hfield (safe_ite (fun _ => safe_pure _ _) fun _ => ?_)
  apply safe_read16_bind hfield
  apply safe_bind_eq (safe_write16 hfield) rfl (write16_mem f _ 0)
  apply safe_bind_eq hcalc rfl (rteIpv4UdptcpCksum_mem rte _ _ _)
  refine safe_bind_eq (safe_write16 hfield) rfl (write16_mem _ _ _) ?_
  exact safe_ite (fun _ => safe_pure _ _) fun _ => safe_pure _ _

/-! ## Coverage -/

/-- The checksum that is compared and the one that is written are the checksum of the datagram, and
computing them stays inside the frame. An absent checksum is not compared. -/
structure UdpCovered (rte : Rte) (f : Frame) : Prop where
  compared : f.udpCksum ≠ 0 → (beToCpu16 (f.calcUdp rte)).toNat = f.rfc768
  written : (beToCpu16 (f.refreshedUdp rte)).toNat = f.rfc768
  checkIn : SafeOn (udpChecksumOk rte kEthHdrLen (kEthHdrLen + f.ihl)) f
  refreshIn : SafeOn (refreshUdpChecksum rte kEthHdrLen (kEthHdrLen + f.ihl)) f

/-- The three lengths agree as far as the sum can see. -/
def LengthsAgree (c : UInt16) (f : Frame) : Prop :=
  if f.totalLength.toNat < f.ihl then
    ((wordsBe (f.underCksum f.dgramLen.toNat)).sum + (beToCpu16 c).toNat) % 65535 = 0 ∧
      (c = 0 → f.udpCksum = 0)
  else
    kEthHdrLen + f.totalLength.toNat ≤ f.dataLen.toNat ∧
      f.GapVanishes (f.totalLength.toNat - f.ihl) f.dgramLen.toNat

theorem UdpCovered.of_values (hc : f.Checked)
    (hin : SafeOn (rteIpv4UdptcpCksum rte kEthHdrLen (kEthHdrLen + f.ihl)) f.clearUdpCksum)
    (hcompared : f.udpCksum ≠ 0 → (beToCpu16 (f.calcUdp rte)).toNat = f.rfc768)
    (hwritten : (beToCpu16 (f.refreshedUdp rte)).toNat = f.rfc768) : f.UdpCovered rte :=
  ⟨hcompared, hwritten, safe_udpChecksumOk hc hin, (safe_refreshUdpChecksum_iff hc rte).mpr hin⟩

/-- A `total_length` below the header length: the value is a constant. -/
theorem udpCovered_short_iff (hrte : rte.UdptcpCksumOk c) (hc : f.Checked)
    (hlt : f.totalLength.toNat < f.ihl) :
    f.UdpCovered rte ↔
      ((wordsBe (f.underCksum f.dgramLen.toNat)).sum + (beToCpu16 c).toNat) % 65535 = 0 ∧
        (c = 0 → f.udpCksum = 0) := by
  have hcalc := calcUdp_short hrte hc hlt
  have hrefreshed := f.refreshedUdp_eq rte
  rw [hcalc] at hrefreshed
  have hin := (safe_calcUdp_iff hc rte).mpr fun hge => absurd hlt (Nat.not_lt.mpr hge)
  have hpos := f.cksumOver_pos f.dgramLen.toNat
  have hswap₀ : (beToCpu16 0).toNat = 0 := by decide
  have hswap₁ : (beToCpu16 0xffff).toNat = 65535 := by decide
  by_cases hzero : c = 0
  · -- zero is no checksum of a datagram, and is written as all ones
    rw [if_pos hzero] at hrefreshed
    have hones := cksumOver_eq f f.dgramLen.toNat (k := 65535) (by decide) (by decide)
    rw [Nat.add_mod_right] at hones
    rw [hzero, hswap₀, Nat.add_zero, ← hones]
    constructor
    · intro h
      have hwritten := h.written
      rw [hrefreshed, hswap₁] at hwritten
      refine ⟨hwritten.symm, fun _ => ?_⟩
      by_contra hfield
      have hcompared := h.compared hfield
      rw [hcalc, hzero, hswap₀] at hcompared
      exact hpos.ne hcompared
    · rintro ⟨hrfc, hfield⟩
      refine .of_values hc hin (fun hne => absurd (hfield rfl) hne) ?_
      rw [hrefreshed, hswap₁]
      exact hrfc.symm
  · rw [if_neg hzero] at hrefreshed
    have hswap : (beToCpu16 c).toNat = c.toNat % 256 * 256 + c.toNat / 256 := bswap16_toNat c
    have hne : c.toNat ≠ 0 := fun h => hzero (UInt16.toNat_inj.mp h)
    have hrfc := cksumOver_eq f f.dgramLen.toNat (k := (beToCpu16 c).toNat) (by omega)
      (beToCpu16 c).toNat_lt
    rw [← hrfc]
    constructor
    · intro h
      have hwritten := h.written
      rw [hrefreshed] at hwritten
      exact ⟨hwritten.symm, fun h => absurd h hzero⟩
    · rintro ⟨hrfc, -⟩
      refine .of_values hc hin (fun _ => ?_) ?_
      · rw [hcalc]
        exact hrfc.symm
      · rw [hrefreshed]
        exact hrfc.symm

/-- A `total_length` that covers the header: the value is the checksum over the bytes behind it. -/
theorem udpCovered_long_iff (hrte : rte.UdptcpCksumOk c) (hc : f.Checked)
    (hge : f.ihl ≤ f.totalLength.toNat) :
    f.UdpCovered rte ↔
      kEthHdrLen + f.totalLength.toNat ≤ f.dataLen.toNat ∧
        f.GapVanishes (f.totalLength.toNat - f.ihl) f.dgramLen.toNat := by
  have hcalc := toNat_calcUdp hrte hc hge
  have hpos := f.cksumOver_pos (f.totalLength.toNat - f.ihl)
  have hrefreshed : f.refreshedUdp rte = f.calcUdp rte := by
    refine (f.refreshedUdp_eq rte).trans (if_neg fun hzero => ?_)
    rw [← hcalc, hzero] at hpos
    exact absurd hpos (by decide)
  have htotal := f.totalLength.toNat_lt
  rw [← cksumOver_eq_iff f (by omega) f.dgramLen.toNat_lt, ← hcalc]
  constructor
  · intro h
    have hin := (safe_refreshUdpChecksum_iff hc rte).mp h.refreshIn
    have hwritten := h.written
    rw [hrefreshed] at hwritten
    exact ⟨(safe_calcUdp_iff hc rte).mp hin hge, hwritten⟩
  · rintro ⟨hfit, hval⟩
    refine .of_values hc ((safe_calcUdp_iff hc rte).mpr fun _ => hfit) (fun _ => hval) ?_
    rw [hrefreshed]
    exact hval

/-- The UDP checksum covers the datagram, and nothing behind the frame, exactly when the lengths
agree. -/
theorem udpCovered_iff (hrte : rte.UdptcpCksumOk c) (hin : f.InGrammar) :
    f.UdpCovered rte ↔ f.LengthsAgree c := by
  have hc := ((inGrammar_iff f).mp hin).1
  rw [LengthsAgree]
  split_ifs with hlt
  · exact udpCovered_short_iff hrte hc hlt
  · exact udpCovered_long_iff hrte hc (Nat.not_lt.mp hlt)

end Main

/-- A client frame without payload with the given `total_length`. -/
def withTotalLength (n : UInt16) : Frame :=
  (Frame.udp [10, 0, 0, 9] [192, 168, 1, 100] 4000 53).put (kEthHdrLen + Ipv4Hdr.totalLength)
    (le16 (cpuToBe16 n))

theorem inGrammar_withTotalLength : (withTotalLength 28).InGrammar ∧ (withTotalLength 30).InGrammar := by
  constructor <;> constructor <;> decide +kernel

/-- With lengths that agree the checksum covers the datagram. -/
theorem udpCovered_withTotalLength : (withTotalLength 28).UdpCovered Rte.dpdk :=
  (udpCovered_iff Rte.dpdk_udptcpCksumOk inGrammar_withTotalLength.1).mpr
    (by unfold LengthsAgree GapVanishes; decide +kernel)

/-- A `total_length` two bytes too long takes the sum behind the end of the frame. -/
theorem not_udpCovered_withTotalLength :
    (withTotalLength 30).InGrammar ∧ ¬(withTotalLength 30).UdpCovered Rte.dpdk := by
  refine ⟨inGrammar_withTotalLength.2, fun h => ?_⟩
  have hc := ((inGrammar_iff _).mp inGrammar_withTotalLength.2).1
  have hin := (safe_refreshUdpChecksum_iff hc Rte.dpdk).mp h.refreshIn
  have hfit := (safe_calcUdp_iff hc Rte.dpdk).mp hin (by decide +kernel)
  exact absurd hfit (by decide +kernel)

end Frame

end VioletGateway
