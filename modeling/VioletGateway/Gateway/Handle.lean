import VioletGateway.Gateway.Services
import VioletGateway.Session.History

/-!
# What the gateway does with a frame

`VioletGW.HandleStep` lists everything `VioletGW::handle` can do with a frame; `handle_cases` says
that the list is complete. The IPv4 case hands on the step of the forwarder, taken after passive
learning.
-/

set_option autoImplicit false

namespace VioletGateway

open Support

/-! ## Reading a frame -/

namespace Frame

variable (f : Frame)

/-- The frame has the Ethernet type `t`. -/
def HasType (t : UInt16) : Prop := EtherHdr.size ≤ f.dataLen.toNat ∧ f.etherType = t

instance (t : UInt16) : Decidable (f.HasType t) := inferInstanceAs (Decidable (_ ∧ _))

/-- The frame is long enough to hold an IPv4 header. -/
def HasIpv4Hdr : Prop :=
  EtherHdr.size + Ipv4Hdr.size ≤ f.dataLen.toNat ∧ f.etherType = etherTypeIpv4

instance : Decidable f.HasIpv4Hdr := inferInstanceAs (Decidable (_ ∧ _))

/-- The source address that `ipv4_src_be` reports. -/
def ipv4Src : UInt32 := if f.HasIpv4Hdr then f.srcIp else 0

/-- The source address of the frame is one that passive learning takes. -/
def Learnable : Prop := f.HasIpv4Hdr ∧ f.srcIp ≠ 0 ∧ firstOctet f.srcIp < 224

instance : Decidable f.Learnable := inferInstanceAs (Decidable (_ ∧ _))

end Frame

@[simp] theorem ethertype_mem (f : Frame) : (ethertype.run f).mem = f := by
  simp [ethertype]

theorem ethertype_val (f : Frame) :
    (ethertype.run f).val = if EtherHdr.size ≤ f.dataLen.toNat then f.etherType else 0 := by
  simp only [ethertype, Traced.bind_val, Traced.ite_val, Traced.pure_val, headersFit_val,
    headersFit_mem, read16_val, Bool.not_eq_true', decide_eq_false_iff_not]
  rw [ite_not]
  rfl

@[simp] theorem ipv4SrcBe_mem (f : Frame) : (ipv4SrcBe.run f).mem = f := by
  simp [ipv4SrcBe]

@[simp] theorem ipv4SrcBe_val (f : Frame) : (ipv4SrcBe.run f).val = f.ipv4Src := by
  have hval : (ipv4SrcBe.run f).val =
      if f.dataLen.toNat < EtherHdr.size + Ipv4Hdr.size then 0
      else if f.etherType ≠ etherTypeIpv4 then 0 else f.srcIp := by
    simp only [ipv4SrcBe, Traced.bind_val, Traced.ite_val, Traced.pure_val, dataLen_val,
      dataLen_mem, read16_val, read16_mem, read32_val]
    rfl
  rw [hval, Frame.ipv4Src]
  -- the two tests of the source are the two parts of `HasIpv4Hdr`
  by_cases h : f.HasIpv4Hdr
  · rw [if_pos h, if_neg (Nat.not_lt.mpr h.1), if_neg (not_not.mpr h.2)]
  · rw [if_neg h]
    split_ifs with hlen htype
    · rfl
    · rfl
    · exact absurd ⟨Nat.not_lt.mp hlen, not_not.mp htype⟩ h

@[simp] theorem passiveLearnIpv4_mem (N : NeighborTable) (now : UInt64) (f : Frame) :
    ((passiveLearnIpv4 N now).run f).mem = f := by
  simp [passiveLearnIpv4]

/-- The neighbor table after passive learning. -/
def NeighborTable.learnFrom (N : NeighborTable) (f : Frame) (now : UInt64) : NeighborTable :=
  if f.Learnable then N.learn f.srcIp (f.mac EtherHdr.srcAddr) now else N

@[simp] theorem passiveLearnIpv4_val (N : NeighborTable) (now : UInt64) (f : Frame) :
    ((passiveLearnIpv4 N now).run f).val = N.learnFrom f now := by
  have hval : ((passiveLearnIpv4 N now).run f).val =
      if ¬ EtherHdr.size + Ipv4Hdr.size ≤ f.dataLen.toNat then N
      else if f.etherType ≠ etherTypeIpv4 then N
      else if f.srcIp = 0 then N
      else if firstOctet f.srcIp ≥ 224 then N
      else N.learn f.srcIp (f.mac EtherHdr.srcAddr) now := by
    simp only [passiveLearnIpv4, Traced.bind_val, Traced.ite_val, Traced.pure_val, headersFit_val,
      headersFit_mem, read16_val, read16_mem, read32_val, read32_mem, readMac_val,
      Bool.not_eq_true', decide_eq_false_iff_not]
    rfl
  rw [hval, NeighborTable.learnFrom]
  by_cases h : f.Learnable
  · rw [if_pos h, if_neg (not_not.mpr h.1.1), if_neg (not_not.mpr h.1.2), if_neg h.2.1,
      if_neg (UInt32.not_le.mpr h.2.2)]
  · rw [if_neg h]
    split_ifs with hlen htype hzero hoctet
    · rfl
    · rfl
    · rfl
    · exact absurd ⟨⟨hlen, not_not.mp htype⟩, hzero, UInt32.not_le.mp hoctet⟩ h
    · rfl

/-! ## The ARP handler -/

/-- Everything that the ARP handler can do: outcome, neighbor table afterwards, frame afterwards. -/
inductive ArpConfig.HandleStep (N : NeighborTable) (now : UInt64) (f : Frame) :
    ArpOutcome → NeighborTable → Frame → Prop
  | dropped : HandleStep N now f {} N f
  | answered (f' : Frame) : HandleStep N now f { result := .txArp } N f'
  | learned {ip : UInt32} (hip : ip ≠ 0) (mac : EtherAddr) :
      HandleStep N now f { learnedIp := ip } (N.learn ip mac now) f

@[simp] theorem parseArp_mem (f : Frame) : (parseArp.run f).mem = f := by
  simp [parseArp]

theorem ArpConfig.handle_cases (cfg : ArpConfig) (N : NeighborTable) (now : UInt64) (f : Frame) :
    HandleStep N now f ((cfg.handle N now).run f).val.1 ((cfg.handle N now).run f).val.2
      ((cfg.handle N now).run f).mem := by
  rw [ArpConfig.handle]
  simp only [Traced.bind_val, Traced.bind_mem, parseArp_mem]
  cases (parseArp.run f).val with
  | error e => exact .dropped
  | ok v =>
      simp only [Traced.bind_val, Traced.bind_mem, read16_val, read16_mem, Traced.ite_val,
        Traced.ite_mem]
      split_ifs
      · -- a request is answered when it is for one of the gateway's own addresses
        rw [ArpConfig.handleRequest]
        simp only [Traced.bind_val, Traced.bind_mem, read32_val, read32_mem, Traced.ite_val,
          Traced.ite_mem, Traced.pure_val, Traced.pure_mem]
        split_ifs
        · exact .dropped
        · exact .answered _
      · rw [ArpConfig.handleReply]
        simp only [Traced.bind_val, Traced.bind_mem, read32_val, read32_mem, readMac_val,
          readMac_mem, Traced.ite_val, Traced.ite_mem, Traced.pure_val, Traced.pure_mem]
        -- an address of zero, or a MAC of zero, is not learned
        split_ifs with hip hmac
        · exact .dropped
        · exact .dropped
        · exact .learned hip _
      · exact .dropped

/-! ## The gateway -/

namespace VioletGW

variable (rte : Rte) (g : VioletGW)

/-- The gateway after passive learning from `f`. -/
def learnFrom (f : Frame) (now : UInt64) : VioletGW :=
  { g with neighbors := g.neighbors.learnFrom f now }

/-- The gateway with the state that the forwarder left. -/
def withForwardState (st : ForwardState UpstreamTable) : VioletGW :=
  { g with sessions := st.sessions, upstreams := st.pickerState }

/-- The address that `handle` reports for flushing, from the frame as the forwarder left it. -/
def reported (f : Frame) : UInt32 :=
  if f.ipv4Src ≠ 0 ∧ (g.arpPending.lookup f.ipv4Src).isSome then f.ipv4Src else 0

/-- Everything that handling a frame can do: outcome, gateway afterwards, frame afterwards. -/
inductive HandleStep (now : UInt64) (f : Frame) : HandleOutcome → VioletGW → Frame → Prop
  | other (hipv4 : ¬f.HasType etherTypeIpv4) : HandleStep now f {} g f
  | arp (hipv4 : ¬f.HasType etherTypeIpv4) {o : ArpOutcome} {N : NeighborTable} {f' : Frame}
      (harp : ArpConfig.HandleStep g.neighbors now f o N f') :
      HandleStep now f { result := o.result, learnedIp := o.learnedIp } { g with neighbors := N } f'
  | ipv4 (hipv4 : f.HasType etherTypeIpv4) {o : HandleOutcome} {st : ForwardState UpstreamTable}
      {f' : Frame}
      (hfwd : (g.learnFrom f now).forwarder.HandleStep rte (g.learnFrom f now).forwardState now f
        o st f') :
      HandleStep now f { o with learnedIp := g.reported f' }
        ((g.learnFrom f now).withForwardState st) f'

theorem handleIpv4_cases (h : g.sessions.Inv) (now : UInt64) {f : Frame}
    (hipv4 : f.HasType etherTypeIpv4) :
    g.HandleStep rte now f ((g.handleIpv4 rte now).run f).val.1
      ((g.handleIpv4 rte now).run f).val.2 ((g.handleIpv4 rte now).run f).mem := by
  have hinv : (g.learnFrom f now).forwardState.sessions.Inv := h
  have hfwd := (g.learnFrom f now).forwarder.handle_cases rte hinv now f
  generalize hr : ((g.learnFrom f now).forwarder.handle rte (g.learnFrom f now).forwardState
    now).run f = r at hfwd
  have hval : ((g.handleIpv4 rte now).run f).val =
      if (ipv4SrcBe.run r.mem).val ≠ 0 ∧
          (g.arpPending.lookup (ipv4SrcBe.run r.mem).val).isSome then
        ({ r.val.1 with learnedIp := (ipv4SrcBe.run r.mem).val },
          (g.learnFrom f now).withForwardState r.val.2)
      else (r.val.1, (g.learnFrom f now).withForwardState r.val.2) := by
    simp only [handleIpv4, Traced.bind_val, passiveLearnIpv4_val, passiveLearnIpv4_mem,
      ipv4SrcBe_mem, Traced.ite_val, Traced.pure_val]
    rw [← hr]
    rfl
  have hmem : ((g.handleIpv4 rte now).run f).mem = r.mem := by
    simp only [handleIpv4, Traced.bind_mem, passiveLearnIpv4_val, passiveLearnIpv4_mem,
      ipv4SrcBe_mem, Traced.ite_mem, Traced.pure_mem, ite_self]
    rw [← hr]
    rfl
  have hstep := HandleStep.ipv4 hipv4 hfwd
  have hzero := hfwd.learnedIp
  rw [hval, hmem, ipv4SrcBe_val]
  rw [reported] at hstep
  split_ifs at hstep ⊢
  · exact hstep
  · rw [← hzero] at hstep
    exact hstep

/-- The cases of `HandleStep` are all that `handle` does. -/
theorem handle_cases (h : g.sessions.Inv) (now : UInt64) (f : Frame) :
    g.HandleStep rte now f ((g.handle rte now).run f).val.1 ((g.handle rte now).run f).val.2
      ((g.handle rte now).run f).mem := by
  rw [handle]
  simp only [Traced.bind_val, Traced.bind_mem, ethertype_mem, ethertype_val, Traced.ite_val,
    Traced.ite_mem]
  -- on a frame without an Ethernet header the type reads as zero
  by_cases hlen : EtherHdr.size ≤ f.dataLen.toNat
  · simp only [if_pos hlen]
    split_ifs with harp hipv4
    · have hnot : ¬f.HasType etherTypeIpv4 := by
        rintro ⟨-, htype⟩
        rw [htype] at harp
        exact absurd harp (by decide)
      exact .arp hnot (g.acfg.handle_cases g.neighbors now f)
    · exact g.handleIpv4_cases rte h now ⟨hlen, hipv4⟩
    · exact .other fun ht => hipv4 ht.2
  · simp only [if_neg hlen]
    exact .other fun ht => hlen ht.1

end VioletGW

end VioletGateway
