import VioletGateway.Mbuf
import VioletGateway.Support.OnesComplement

/-!
# The checksum helpers as DPDK documents them

`Rte.dpdk` instantiates the checksum parameters of the model: one's-complement sums over native 16-bit
words, folded to 16 bits and complemented, for UDP with the IPv4 pseudo-header and with a zero result
sent as `0xffff`. `Ipv4CksumOk` is what the datapath relies on for the IPv4 header checksum, and
`UdptcpCksumOk` for the UDP checksum.
-/

set_option autoImplicit false

namespace VioletGateway

open Support

/-- Sum of the native 16-bit words of a byte string; a trailing byte counts as a low byte. -/
def sumWords : List UInt8 → Nat
  | a :: b :: rest => a.toNat + 256 * b.toNat + sumWords rest
  | [a] => a.toNat
  | [] => 0

/-- One folding step of a 32-bit sum. -/
def foldCarry (n : Nat) : Nat := n / 65536 + n % 65536

/-- `rte_raw_cksum`. -/
def rawCksum (bs : List UInt8) : Nat := foldCarry (foldCarry (sumWords bs))

/-- The pseudo-header of an IPv4 header for an L4 part of `len` bytes. -/
def pseudoHeader (hdr : List UInt8) (len : Nat) : List UInt8 :=
  (hdr.drop 12).take 8 ++ [0, hdr.getD 9 0, UInt8.ofNat (len / 256), UInt8.ofNat len]

/-- `rte_ipv4_udptcp_cksum` on the bytes it reads. -/
def udptcpCksum (hdr : List UInt8) : Option (List UInt8) → UInt16
  | none => 0
  | some l4 =>
    let cksum := 65535 - foldCarry (rawCksum l4 + rawCksum (pseudoHeader hdr l4.length))
    -- a UDP checksum of zero would read as absent
    if cksum = 0 ∧ hdr.getD 9 0 = 17 then 0xffff else UInt16.ofNat cksum

/-- The checksum helpers of DPDK. -/
def Rte.dpdk : Rte where
  ipv4Cksum := fun hdr => UInt16.ofNat (65535 - rawCksum hdr)
  ipv4UdptcpCksum := udptcpCksum

/-- `rte_ipv4_cksum` returns the complement of the one's-complement sum of the header, read as native
words; a header has at most 60 bytes. -/
def Rte.Ipv4CksumOk (rte : Rte) : Prop :=
  ∀ hdr : List UInt8, hdr.length ≤ 60 → (rte.ipv4Cksum hdr).toNat = 65535 - onesSum (wordsLe hdr)

/-- The complement of a one's-complement sum, with zero sent as all ones. -/
def udpComplement (sum : Nat) : Nat := if sum = 65535 then 65535 else 65535 - sum

/-- `rte_ipv4_udptcp_cksum` on the fixed header of a UDP packet: the complement of the sum of the
pseudo-header and of the L4 bytes it reads, never zero, and the constant `c` when `total_length` is
below the header length. -/
structure Rte.UdptcpCksumOk (rte : Rte) (c : UInt16) : Prop where
  sum : ∀ hdr l4 : List UInt8, hdr.length = Ipv4Hdr.size → hdr.getD 9 0 = 17 → l4.length ≤ 65535 →
    (rte.ipv4UdptcpCksum hdr (some l4)).toNat =
      udpComplement (onesSum (wordsLe (pseudoHeader hdr l4.length ++ l4)))
  short : ∀ hdr : List UInt8, rte.ipv4UdptcpCksum hdr none = c

theorem sumWords_eq (bs : List UInt8) : sumWords bs = (wordsLe bs).sum := by
  induction bs using wordsLe.induct with
  | case1 a b rest ih => simp only [sumWords, wordsLe, List.sum_cons, ih]
  | case2 a => simp [sumWords, wordsLe]
  | case3 => rfl

theorem sumWords_le (bs : List UInt8) : sumWords bs ≤ 65535 * bs.length := by
  induction bs using wordsLe.induct with
  | case1 a b rest ih =>
      have ha := a.toNat_lt
      have hb := b.toNat_lt
      simp only [sumWords, List.length_cons]
      omega
  | case2 a =>
      have ha := a.toNat_lt
      simp only [sumWords, List.length_cons, List.length_nil]
      omega
  | case3 => exact Nat.le_refl 0

/-- Two folding steps are enough for a packet. -/
theorem rawCksum_eq {bs : List UInt8} (h : bs.length ≤ 65535) :
    rawCksum bs = onesSum (wordsLe bs) := by
  have hle := sumWords_le bs
  have hlt : onesSum (wordsLe bs) < 65536 := onesSum_lt wordsLe_lt
  have hmod := onesSum_mod (wordsLe bs)
  have hzero := onesSum_eq_zero (wordsLe bs)
  rw [← sumWords_eq] at hmod hzero
  simp only [rawCksum, foldCarry]
  omega

theorem Rte.dpdk_ipv4CksumOk : Rte.dpdk.Ipv4CksumOk := by
  intro hdr hlen
  have hlt : onesSum (wordsLe hdr) < 65536 := onesSum_lt wordsLe_lt
  show (UInt16.ofNat (65535 - rawCksum hdr)).toNat = _
  rw [rawCksum_eq (Nat.le_trans hlen (by decide)), UInt16.toNat_ofNat']
  exact Nat.mod_eq_of_lt (by omega)

theorem length_pseudoHeader {hdr : List UInt8} (h : hdr.length = Ipv4Hdr.size) (len : Nat) :
    (pseudoHeader hdr len).length = 12 := by
  simp [pseudoHeader, h]

/-- The last folding step is the addition of the two sums. -/
theorem foldCarry_add {a b : Nat} (ha : a < 65536) (hb : b < 65536) :
    foldCarry (a + b) = onesAdd a b := by
  rw [foldCarry, onesAdd]
  split_ifs <;> omega

theorem Rte.dpdk_udptcpCksumOk : Rte.dpdk.UdptcpCksumOk 0 where
  sum := by
    intro hdr l4 hhdr hproto hlen
    have hpseudo := length_pseudoHeader hhdr l4.length
    have hlt : onesSum (wordsLe (pseudoHeader hdr l4.length ++ l4)) < 65536 := onesSum_lt wordsLe_lt
    have hsum : foldCarry (rawCksum l4 + rawCksum (pseudoHeader hdr l4.length)) =
        onesSum (wordsLe (pseudoHeader hdr l4.length ++ l4)) := by
      rw [rawCksum_eq hlen, rawCksum_eq (by omega), Nat.add_comm,
        foldCarry_add (onesSum_lt wordsLe_lt) (onesSum_lt wordsLe_lt),
        wordsLe_append (by omega), onesSum_append wordsLe_lt wordsLe_lt]
    show (udptcpCksum hdr (some l4)).toNat = _
    simp only [udptcpCksum, hsum, hproto, and_true, udpComplement]
    split_ifs with h₁ h₂ h₂
    · rfl
    · omega
    · omega
    · rw [UInt16.toNat_ofNat']
      exact Nat.mod_eq_of_lt (by omega)
  short := fun _ => rfl

end VioletGateway
