import VioletGateway.Support.ByteMem
import VioletGateway.Support.Traced

/-!
# Packet buffers and their header layout

A `Frame` is the data part of a single-segment mbuf: the bytes from `data_off` on, the number `room`
of bytes up to the end of the buffer, and `data_len`. An `Mbuf` adds the identity of the buffer, which
stands for the `rte_mbuf*` pointer.

Every byte the datapath reads or writes goes through `readBlock` and `writeBlock`, which log the
access together with the `data_len` in force (`Access`). Machine words are little-endian, as on the
x86 targets of the gateway; `beToCpu16` and `beToCpu32` are the byte swaps of `rte_byteorder.h`.

The checksum helpers of DPDK are parameters (`Rte`): functions of the bytes they read.
-/

set_option autoImplicit false

namespace VioletGateway

open Support

/-- Data part of a single-segment mbuf. -/
structure Frame where
  data : ByteMem
  room : Nat
  dataLen : UInt16

/-- The bytes of the frame: those below `data_len`. -/
def Frame.bytes (f : Frame) : List UInt8 := List.ofFn (f.data.load 0 f.dataLen.toNat)

/-- A packet buffer; `addr` is its identity. -/
structure Mbuf where
  addr : Nat
  frame : Frame

/-- A MAC address, `rte_ether_addr`. -/
abbrev EtherAddr := Fin 6 → UInt8

/-- One access to frame memory: `len` bytes from `off` on, made while `data_len` was `bound`. -/
structure Access where
  off : Nat
  len : Nat
  bound : Nat

/-- Every byte of the access has an index below `data_len`. -/
def Access.InBounds (a : Access) : Prop := a.off + a.len ≤ a.bound

/-- Computations on one frame. -/
abbrev FrameM := Traced Frame Access

/-! ## Header layout -/

namespace EtherHdr

@[simp] def dstAddr : Nat := 0
@[simp] def srcAddr : Nat := 6
@[simp] def etherType : Nat := 12
@[simp] def size : Nat := 14

end EtherHdr

namespace Ipv4Hdr

@[simp] def versionIhl : Nat := 0
@[simp] def totalLength : Nat := 2
@[simp] def fragmentOffset : Nat := 6
@[simp] def nextProtoId : Nat := 9
@[simp] def hdrChecksum : Nat := 10
@[simp] def srcAddr : Nat := 12
@[simp] def dstAddr : Nat := 16
@[simp] def size : Nat := 20

end Ipv4Hdr

namespace UdpHdr

@[simp] def srcPort : Nat := 0
@[simp] def dstPort : Nat := 2
@[simp] def dgramLen : Nat := 4
@[simp] def dgramCksum : Nat := 6
@[simp] def size : Nat := 8

end UdpHdr

namespace ArpHdr

@[simp] def hardware : Nat := 0
@[simp] def protocol : Nat := 2
@[simp] def hlen : Nat := 4
@[simp] def plen : Nat := 5
@[simp] def opcode : Nat := 6
@[simp] def sha : Nat := 8
@[simp] def sip : Nat := 14
@[simp] def tha : Nat := 18
@[simp] def tip : Nat := 24
@[simp] def size : Nat := 28

end ArpHdr

/-! ## Byte order -/

/-- `rte_be_to_cpu_16`. -/
def beToCpu16 (x : UInt16) : UInt16 := bswap16 x

/-- `rte_cpu_to_be_16`. -/
def cpuToBe16 (x : UInt16) : UInt16 := bswap16 x

/-- `rte_be_to_cpu_32`. -/
def beToCpu32 (x : UInt32) : UInt32 := bswap32 x

/-- `rte_cpu_to_be_32`. -/
def cpuToBe32 (x : UInt32) : UInt32 := bswap32 x

@[simp] theorem beToCpu16_cpuToBe16 (x : UInt16) : beToCpu16 (cpuToBe16 x) = x :=
  bswap16_bswap16 x

/-! ## Frame memory -/

/-- `rte_pktmbuf_data_len`. -/
def dataLen : FrameM UInt16 := ⟨fun f => ⟨f.dataLen, f, []⟩⟩

/-- Read the block of `n` bytes at `off`. -/
def readBlock (off n : Nat) : FrameM (Fin n → UInt8) :=
  ⟨fun f => ⟨f.data.load off n, f, [⟨off, n, f.dataLen.toNat⟩]⟩⟩

/-- Write the block `bs` at `off`. -/
def writeBlock (off : Nat) {n : Nat} (bs : Fin n → UInt8) : FrameM Unit :=
  ⟨fun f => ⟨(), { f with data := f.data.store off bs }, [⟨off, n, f.dataLen.toNat⟩]⟩⟩

/-- Set `data_len`. -/
def setDataLen (n : UInt16) : FrameM Unit := ⟨fun f => ⟨(), { f with dataLen := n }, []⟩⟩

def read8 (off : Nat) : FrameM UInt8 := (fun b => b 0) <$> readBlock off 1

def read16 (off : Nat) : FrameM UInt16 := ofLe16 <$> readBlock off 2

def read32 (off : Nat) : FrameM UInt32 := ofLe32 <$> readBlock off 4

def readMac (off : Nat) : FrameM EtherAddr := readBlock off 6

def write8 (off : Nat) (x : UInt8) : FrameM Unit := writeBlock off fun _ : Fin 1 => x

def write16 (off : Nat) (x : UInt16) : FrameM Unit := writeBlock off (le16 x)

def write32 (off : Nat) (x : UInt32) : FrameM Unit := writeBlock off (le32 x)

def writeMac (off : Nat) (a : EtherAddr) : FrameM Unit := writeBlock off a

namespace Frame

variable (f : Frame)

/-- The byte at `off`. -/
def u8 (off : Nat) : UInt8 := f.data.load off 1 0

/-- The native 16-bit word at `off`. -/
def u16 (off : Nat) : UInt16 := ofLe16 (f.data.load off 2)

/-- The native 32-bit word at `off`. -/
def u32 (off : Nat) : UInt32 := ofLe32 (f.data.load off 4)

/-- The MAC address at `off`. -/
def mac (off : Nat) : EtherAddr := f.data.load off 6

/-- The frame with the block at `off` replaced. -/
def put (off : Nat) {n : Nat} (bs : Fin n → UInt8) : Frame := { f with data := f.data.store off bs }

@[simp] theorem put_dataLen (off : Nat) {n : Nat} (bs : Fin n → UInt8) :
    (f.put off bs).dataLen = f.dataLen := rfl

variable {f}

theorem u8_put {off n off' : Nat} {bs : Fin n → UInt8} (h : off' + 1 ≤ off ∨ off + n ≤ off') :
    (f.put off bs).u8 off' = f.u8 off' :=
  congrFun (ByteMem.load_store_of_disjoint h) 0

theorem u16_put {off n off' : Nat} {bs : Fin n → UInt8} (h : off' + 2 ≤ off ∨ off + n ≤ off') :
    (f.put off bs).u16 off' = f.u16 off' :=
  congrArg ofLe16 (ByteMem.load_store_of_disjoint h)

theorem u32_put {off n off' : Nat} {bs : Fin n → UInt8} (h : off' + 4 ≤ off ∨ off + n ≤ off') :
    (f.put off bs).u32 off' = f.u32 off' :=
  congrArg ofLe32 (ByteMem.load_store_of_disjoint h)

@[simp] theorem u16_put_self (off : Nat) (x : UInt16) : (f.put off (le16 x)).u16 off = x := by
  simp [u16, put]

@[simp] theorem u32_put_self (off : Nat) (x : UInt32) : (f.put off (le32 x)).u32 off = x := by
  simp [u32, put]

@[simp] theorem put_put_self (off : Nat) {n : Nat} (bs bs' : Fin n → UInt8) :
    (f.put off bs).put off bs' = f.put off bs' := by
  simp [put]

theorem put_comm {off n off' n' : Nat} (bs : Fin n → UInt8) (bs' : Fin n' → UInt8)
    (h : off' + n' ≤ off ∨ off + n ≤ off') :
    (f.put off bs).put off' bs' = (f.put off' bs').put off bs := by
  simp only [put]
  rw [ByteMem.store_comm_of_disjoint bs bs' h]

/-- Writing a word back where it was read changes nothing. -/
@[simp] theorem put_u16_self (off : Nat) : f.put off (le16 (f.u16 off)) = f := by
  simp [put, u16]

end Frame

section Values

variable (f : Frame) (off : Nat)

@[simp] theorem dataLen_val : (dataLen.run f).val = f.dataLen := (rfl)
@[simp] theorem dataLen_mem : (dataLen.run f).mem = f := (rfl)
@[simp] theorem readBlock_val (n : Nat) : ((readBlock off n).run f).val = f.data.load off n := (rfl)
@[simp] theorem readBlock_mem (n : Nat) : ((readBlock off n).run f).mem = f := (rfl)
@[simp] theorem read8_val : ((read8 off).run f).val = f.u8 off := (rfl)
@[simp] theorem read8_mem : ((read8 off).run f).mem = f := (rfl)
@[simp] theorem read16_val : ((read16 off).run f).val = f.u16 off := (rfl)
@[simp] theorem read16_mem : ((read16 off).run f).mem = f := (rfl)
@[simp] theorem read32_val : ((read32 off).run f).val = f.u32 off := (rfl)
@[simp] theorem read32_mem : ((read32 off).run f).mem = f := (rfl)
@[simp] theorem readMac_val : ((readMac off).run f).val = f.mac off := (rfl)
@[simp] theorem readMac_mem : ((readMac off).run f).mem = f := (rfl)
@[simp] theorem write16_mem (x : UInt16) : ((write16 off x).run f).mem = f.put off (le16 x) := (rfl)
@[simp] theorem write32_mem (x : UInt32) : ((write32 off x).run f).mem = f.put off (le32 x) := (rfl)
@[simp] theorem writeMac_mem (a : EtherAddr) : ((writeMac off a).run f).mem = f.put off a := (rfl)

end Values

section Bounds

variable {f : Frame} {off : Nat}

theorem safe_dataLen : Traced.Safe Access.InBounds dataLen f := by
  intro a ha
  simp [dataLen] at ha

theorem safe_setDataLen (n : UInt16) : Traced.Safe Access.InBounds (setDataLen n) f := by
  intro a ha
  simp [setDataLen] at ha

theorem safe_readBlock {n : Nat} (h : off + n ≤ f.dataLen.toNat) :
    Traced.Safe Access.InBounds (readBlock off n) f := by
  intro a ha
  simp only [readBlock, List.mem_singleton] at ha
  subst ha
  exact h

theorem safe_writeBlock {n : Nat} {bs : Fin n → UInt8} (h : off + n ≤ f.dataLen.toNat) :
    Traced.Safe Access.InBounds (writeBlock off bs) f := by
  intro a ha
  simp only [writeBlock, List.mem_singleton] at ha
  subst ha
  exact h

end Bounds

/-! ## The checksum helpers of DPDK -/

/-- `rte_ipv4_cksum` as a function of the header bytes it reads, and `rte_ipv4_udptcp_cksum` as a
function of the fixed IPv4 header and of the L4 bytes it reads; `none` is the case of an IPv4
`total_length` below the header length, in which no L4 byte is read. -/
structure Rte where
  ipv4Cksum : List UInt8 → UInt16
  ipv4UdptcpCksum : List UInt8 → Option (List UInt8) → UInt16

/-- Header length in bytes encoded in `version_ihl`. -/
def ihlBytes (versionIhl : UInt8) : Nat := (versionIhl.toNat % 16) * 4

/-- `rte_ipv4_cksum(ip)`: reads the `IHL * 4` header bytes. -/
def rteIpv4Cksum (rte : Rte) (ip : Nat) : FrameM UInt16 := do
  let ihl := ihlBytes (← read8 (ip + Ipv4Hdr.versionIhl))
  let hdr ← readBlock ip ihl
  return rte.ipv4Cksum (List.ofFn hdr)

/-- `rte_ipv4_udptcp_cksum(ip, l4)`: reads the IPv4 header and `total_length - IHL * 4` bytes from
`l4` on. -/
def rteIpv4UdptcpCksum (rte : Rte) (ip l4 : Nat) : FrameM UInt16 := do
  let ihl := ihlBytes (← read8 (ip + Ipv4Hdr.versionIhl))
  let l3Len := (beToCpu16 (← read16 (ip + Ipv4Hdr.totalLength))).toNat
  let hdr ← readBlock ip Ipv4Hdr.size
  if l3Len < ihl then
    return rte.ipv4UdptcpCksum (List.ofFn hdr) none
  let payload ← readBlock l4 (l3Len - ihl)
  return rte.ipv4UdptcpCksum (List.ofFn hdr) (some (List.ofFn payload))

end VioletGateway
