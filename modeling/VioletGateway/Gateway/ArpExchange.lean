import VioletGateway.Gateway.Neighbors

/-!
# An ARP exchange between two handlers

`make_request` writes a frame, `handle` of another handler turns it into a reply in place, and `handle`
of the first one reads the reply. The three meet at the fields of an ARP frame (`ArpFields`): each step
is described by the fields it starts from and the fields it leaves (`makeRequest_isArp`,
`makeReply_isArp`), and the exchange is their composition (`arp_exchange`).
-/

set_option autoImplicit false

namespace VioletGateway

open Support

/-! ## Fields of an ARP frame -/

/-- The fields of an ARP frame over Ethernet and IPv4; the operation is in host byte order. -/
structure ArpFields where
  ethDst : EtherAddr
  ethSrc : EtherAddr
  opcode : UInt16
  sha : EtherAddr
  sip : UInt32
  tha : EtherAddr
  tip : UInt32

namespace Frame

variable {f : Frame}

/-- The frame with another `data_len`. -/
def setLen (f : Frame) (n : UInt16) : Frame := { f with dataLen := n }

@[simp] theorem u8_setLen (n : UInt16) (off : Nat) : (f.setLen n).u8 off = f.u8 off := (rfl)
@[simp] theorem u16_setLen (n : UInt16) (off : Nat) : (f.setLen n).u16 off = f.u16 off := (rfl)
@[simp] theorem u32_setLen (n : UInt16) (off : Nat) : (f.setLen n).u32 off = f.u32 off := (rfl)
@[simp] theorem mac_setLen (n : UInt16) (off : Nat) : (f.setLen n).mac off = f.mac off := (rfl)

theorem mac_put {off n off' : Nat} {bs : Fin n → UInt8} (h : off' + 6 ≤ off ∨ off + n ≤ off') :
    (f.put off bs).mac off' = f.mac off' :=
  ByteMem.load_store_of_disjoint h

theorem mac_put_self (off : Nat) (a : EtherAddr) : (f.put off a).mac off = a :=
  ByteMem.load_store_self _ _

theorem u8_put_self (off : Nat) (x : UInt8) : (f.put off fun _ : Fin 1 => x).u8 off = x :=
  congrFun (ByteMem.load_store_self off fun _ : Fin 1 => x) 0

/-- The frame is an ARP frame of the minimal length with the fields `F`. -/
structure IsArp (f : Frame) (F : ArpFields) : Prop where
  dataLen : f.dataLen = kArpFrameLen
  etherType : f.u16 EtherHdr.etherType = cpuToBe16 etherTypeArp
  hardware : f.u16 (kEthHdrLen + ArpHdr.hardware) = cpuToBe16 arpHrdEther
  protocol : f.u16 (kEthHdrLen + ArpHdr.protocol) = cpuToBe16 etherTypeIpv4
  hlen : f.u8 (kEthHdrLen + ArpHdr.hlen) = 6
  plen : f.u8 (kEthHdrLen + ArpHdr.plen) = 4
  ethDst : f.mac EtherHdr.dstAddr = F.ethDst
  ethSrc : f.mac EtherHdr.srcAddr = F.ethSrc
  opcode : f.u16 (kEthHdrLen + ArpHdr.opcode) = cpuToBe16 F.opcode
  sha : f.mac (kEthHdrLen + ArpHdr.sha) = F.sha
  sip : f.u32 (kEthHdrLen + ArpHdr.sip) = F.sip
  tha : f.mac (kEthHdrLen + ArpHdr.tha) = F.tha
  tip : f.u32 (kEthHdrLen + ArpHdr.tip) = F.tip

/-- The parser accepts such a frame. -/
theorem IsArp.parse {F : ArpFields} (h : f.IsArp F) : (parseArp.run f).val = .ok ⟨0, kEthHdrLen⟩ := by
  have hlen : (kEthHdrLen + kArpHdrLen) % 65536 ≤ f.dataLen.toNat := by
    rw [h.dataLen]
    decide
  rw [parseArp]
  simp only [Traced.bind_val, Traced.ite_val, Traced.pure_val, headersFit_val, headersFit_mem,
    read16_val, read16_mem, read8_val, read8_mem, h.etherType, h.hardware, h.protocol, h.hlen,
    h.plen, beToCpu16_cpuToBe16, decide_eq_true hlen]
  rfl

end Frame

/-! ## The two encoders -/

theorem pktmbufAppend_run {f : Frame} {len : UInt16} (h : f.dataLen.toNat + len.toNat ≤ f.room) :
    (pktmbufAppend len).run f = ⟨true, f.setLen (f.dataLen + len), []⟩ := if_pos h

@[simp] theorem setDataLen_mem (n : UInt16) (f : Frame) :
    ((setDataLen n).run f).mem = f.setLen n := (rfl)

@[simp] theorem writeBlock_mem (off : Nat) {n : Nat} (bs : Fin n → UInt8) (f : Frame) :
    ((writeBlock off bs).run f).mem = f.put off bs := (rfl)

@[simp] theorem write8_mem (off : Nat) (x : UInt8) (f : Frame) :
    ((write8 off x).run f).mem = f.put off fun _ : Fin 1 => x := (rfl)

namespace ArpConfig

variable (cfg : ArpConfig)

/-- The fields of a request of `cfg` for `ip`. -/
def requestFields (ip : UInt32) : ArpFields where
  ethDst := fun _ => 0xff
  ethSrc := cfg.gatewayMac
  opcode := arpOpRequest
  sha := cfg.gatewayMac
  sip := cfg.gatewayIp
  tha := zeroMac
  tip := ip

/-- The fields of the reply of `cfg` to a request with the fields `F`. -/
def replyFields (F : ArpFields) : ArpFields where
  ethDst := F.ethSrc
  ethSrc := cfg.gatewayMac
  opcode := arpOpReply
  sha := cfg.gatewayMac
  sip := F.tip
  tha := F.sha
  tip := F.sip

/-- A request is made if the new buffer has room for it. -/
theorem makeRequest_val_iff (ip : UInt32) (f : Frame) :
    ((cfg.makeRequest ip).run (f.setLen 0)).val = true ↔ kArpFrameLen.toNat ≤ f.room := by
  have hiff : (f.setLen 0).dataLen.toNat + kArpFrameLen.toNat ≤ (f.setLen 0).room ↔
      kArpFrameLen.toNat ≤ f.room := by
    show 0 + kArpFrameLen.toNat ≤ f.room ↔ _
    rw [Nat.zero_add]
  rw [makeRequest]
  simp only [Traced.bind_val]
  by_cases hroom : kArpFrameLen.toNat ≤ f.room
  · rw [pktmbufAppend_run (hiff.mpr hroom)]
    exact iff_of_true rfl hroom
  · have hfail : (pktmbufAppend kArpFrameLen).run (f.setLen 0) = ⟨false, f.setLen 0, []⟩ :=
      if_neg fun h => hroom (hiff.mp h)
    rw [hfail]
    exact iff_of_false nofun hroom

theorem makeRequest_isArp (ip : UInt32) {f : Frame}
    (hmade : ((cfg.makeRequest ip).run (f.setLen 0)).val = true) :
    ((cfg.makeRequest ip).run (f.setLen 0)).mem.IsArp (cfg.requestFields ip) := by
  have hroom : (f.setLen 0).dataLen.toNat + kArpFrameLen.toNat ≤ (f.setLen 0).room := by
    show 0 + kArpFrameLen.toNat ≤ f.room
    rw [Nat.zero_add]
    exact (cfg.makeRequest_val_iff ip f).mp hmade
  have hrun := pktmbufAppend_run hroom
  simp only [makeRequest, fillArpHdr]
  simp only [Traced.bind_mem, hrun, Bool.not_true, Bool.false_eq_true, if_false, Traced.pure_mem,
    setDataLen_mem, writeBlock_mem, write8_mem, write16_mem, write32_mem, writeMac_mem]
  constructor
  · rfl
  all_goals
    simp (disch := decide) [requestFields, Frame.u16_put, Frame.u32_put, Frame.u8_put, Frame.mac_put,
      Frame.mac_put_self, Frame.u8_put_self]

/-- No field is read after it was overwritten. -/
theorem makeReply_isArp {f : Frame} {F : ArpFields} (h : f.IsArp F) :
    ((cfg.makeReply ⟨0, kEthHdrLen⟩ F.tip).run f).val = .txArp ∧
      ((cfg.makeReply ⟨0, kEthHdrLen⟩ F.tip).run f).mem.IsArp (cfg.replyFields F) := by
  obtain ⟨-, htype, hhrd, hpro, hhlen, hplen, -, hsrc, -, hsha, hsip, -, -⟩ := h
  simp only [EtherHdr.etherType, EtherHdr.srcAddr, kEthHdrLen, EtherHdr.size, ArpHdr.hardware,
    ArpHdr.protocol, ArpHdr.hlen, ArpHdr.plen, ArpHdr.sha, ArpHdr.sip, Nat.reduceAdd]
    at htype hhrd hpro hhlen hplen hsrc hsha hsip
  rw [makeReply]
  simp only [Traced.bind_val, Traced.bind_mem, Traced.pure_val, Traced.pure_mem, setDataLen_mem,
    write16_mem, write32_mem, writeMac_mem, readMac_val, readMac_mem, read32_val, read32_mem]
  refine ⟨trivial, ?_⟩
  constructor
  · rfl
  all_goals
    simp (disch := decide) [replyFields, Frame.u16_put, Frame.u32_put, Frame.u8_put, Frame.mac_put,
      Frame.mac_put_self, htype, hhrd, hpro, hhlen, hplen, hsrc, hsha, hsip]

/-! ## The handler on a frame with known fields -/

section Handle

variable {f : Frame} {F : ArpFields} (N : NeighborTable) (now : UInt64)

theorem handleRequest_of_isArp (h : f.IsArp F) :
    ((cfg.handleRequest ⟨0, kEthHdrLen⟩).run f).val =
        (if cfg.isProxyTarget F.tip then .txArp else .drop) ∧
      ((cfg.handleRequest ⟨0, kEthHdrLen⟩).run f).mem =
        if cfg.isProxyTarget F.tip then ((cfg.makeReply ⟨0, kEthHdrLen⟩ F.tip).run f).mem else f := by
  rw [handleRequest]
  simp only [Traced.bind_val, Traced.bind_mem, read32_val, read32_mem, h.tip]
  cases cfg.isProxyTarget F.tip with
  | true => exact ⟨(cfg.makeReply_isArp h).1, rfl⟩
  | false => exact ⟨rfl, rfl⟩

/-- A request is answered by the owner of its target, dropped by any other handler, and never
learned. -/
theorem handle_of_request (h : f.IsArp F) (hop : F.opcode = arpOpRequest) :
    ((cfg.handle N now).run f).val.2 = N ∧
      (cfg.isProxyTarget F.tip = true →
        ((cfg.handle N now).run f).val.1 = { result := .txArp } ∧
          ((cfg.handle N now).run f).mem.IsArp (cfg.replyFields F)) ∧
      (cfg.isProxyTarget F.tip = false →
        ((cfg.handle N now).run f).val.1 = {} ∧ ((cfg.handle N now).run f).mem = f) := by
  have hopcode : beToCpu16 (f.u16 (kEthHdrLen + ArpHdr.opcode)) = arpOpRequest := by
    rw [h.opcode, beToCpu16_cpuToBe16, hop]
  have hval : ((cfg.handle N now).run f).val =
      ({ result := ((cfg.handleRequest ⟨0, kEthHdrLen⟩).run f).val }, N) := by
    rw [ArpConfig.handle]
    simp only [Traced.bind_val, parseArp_mem, h.parse, read16_val, read16_mem, if_pos hopcode,
      Traced.pure_val]
  have hmem : ((cfg.handle N now).run f).mem = ((cfg.handleRequest ⟨0, kEthHdrLen⟩).run f).mem := by
    rw [ArpConfig.handle]
    simp only [Traced.bind_mem, parseArp_mem, h.parse, read16_val, read16_mem, if_pos hopcode,
      Traced.pure_mem]
  obtain ⟨hresult, hframe⟩ := cfg.handleRequest_of_isArp h
  rw [hval, hmem, hresult, hframe]
  refine ⟨rfl, ?_, ?_⟩
  · intro htarget
    rw [htarget]
    exact ⟨rfl, (cfg.makeReply_isArp h).2⟩
  · intro htarget
    rw [htarget]
    exact ⟨rfl, rfl⟩

/-- A reply with addresses that are not zero is learned. -/
theorem handle_of_reply (h : f.IsArp F) (hop : F.opcode = arpOpReply) (hip : F.sip ≠ 0)
    (hmac : isZeroMac F.sha = false) :
    ((cfg.handle N now).run f).val = ({ learnedIp := F.sip }, N.learn F.sip F.sha now) := by
  have hreply : f.IsArpReply := by
    refine ⟨by rw [h.parse]; rfl, ?_⟩
    rw [h.opcode, beToCpu16_cpuToBe16, hop]
  have hsip : f.arpSenderIp = F.sip := h.sip
  have hsha : f.arpSenderMac = F.sha := h.sha
  have hval := cfg.handle_of_announces N now
    ⟨hreply, fun h0 => hip (hsip.symm.trans h0), by rw [hsha]; exact hmac⟩
  rw [hval, hsip, hsha]

end Handle

theorem isProxyTarget_iff (ip : UInt32) :
    cfg.isProxyTarget ip = true ↔ ip = cfg.gatewayIp ∨ ip = cfg.vipIp := by
  rw [isProxyTarget, Bool.or_eq_true, beq_iff_eq, beq_iff_eq]

end ArpConfig

/-! ## The exchange -/

theorem NeighborTable.learn_entries (N : NeighborTable) (ip : UInt32) (mac : EtherAddr)
    (now : UInt64) :
    (N.learn ip mac now).lookup ip = (if N.hasStatic ip then N.lookup ip else some mac) ∧
      ∀ ip' ≠ ip, (N.learn ip mac now).entries.lookup ip' = N.entries.lookup ip' := by
  rw [learn]
  split_ifs
  · exact ⟨rfl, fun _ _ => rfl⟩
  · refine ⟨?_, fun ip' hne => AList.lookup_insert_ne hne⟩
    rw [lookup, AList.lookup_insert]
    rfl

/-- `A` asks for `t` and `B` answers. The frame that `A` has made is `req`, `B` leaves it as `ans.mem`,
and `A` handles what `B` has left. -/
theorem arp_exchange (A B : ArpConfig) (NA NB : NeighborTable) (t : UInt32) (nowB nowA : UInt64)
    (buf : Frame) (hmade : ((A.makeRequest t).run (buf.setLen 0)).val = true) :
    let req := ((A.makeRequest t).run (buf.setLen 0)).mem
    let ans := (B.handle NB nowB).run req
    let fin := (A.handle NA nowA).run ans.mem
    ans.val.2 = NB ∧
      (t = B.gatewayIp ∨ t = B.vipIp → t ≠ 0 → isZeroMac B.gatewayMac = false →
        ans.val.1.result = .txArp ∧ ans.mem.dataLen = 42 ∧
          (parseArp.run ans.mem).val = .ok ⟨0, kEthHdrLen⟩ ∧
          ans.mem.mac EtherHdr.dstAddr = A.gatewayMac ∧
          fin.val.1 = { result := .drop, learnedIp := t } ∧
          fin.val.2.lookup t = (if NA.hasStatic t then NA.lookup t else some B.gatewayMac) ∧
          ∀ ip ≠ t, fin.val.2.entries.lookup ip = NA.entries.lookup ip) ∧
      (¬(t = B.gatewayIp ∨ t = B.vipIp) → ans.val.1.result = .drop ∧ ans.mem = req) := by
  intro req ans fin
  have hreq := A.makeRequest_isArp t hmade
  obtain ⟨htable, hanswer, hother⟩ := B.handle_of_request NB nowB hreq rfl
  refine ⟨htable, ?_, ?_⟩
  · intro htarget ht hmac
    obtain ⟨hresult, hans⟩ := hanswer ((B.isProxyTarget_iff t).mpr htarget)
    have hfin : fin.val = _ := A.handle_of_reply NA nowA hans rfl ht hmac
    refine ⟨congrArg ArpOutcome.result hresult, hans.dataLen, hans.parse, hans.ethDst, ?_, ?_⟩
    · rw [hfin]
      rfl
    · rw [hfin]
      exact NA.learn_entries t B.gatewayMac nowA
  · intro htarget
    have hnot : B.isProxyTarget t = false :=
      Bool.eq_false_iff.mpr fun h => htarget ((B.isProxyTarget_iff t).mp h)
    obtain ⟨hresult, hframe⟩ := hother hnot
    exact ⟨congrArg ArpOutcome.result hresult, hframe⟩

/-- The lab gateway asks for the address of a second gateway. -/
theorem arp_exchange_lab :
    let A : ArpConfig := ⟨Config.ipv4From ![10, 0, 0, 1], 0, ![2, 0, 0, 0, 0, 1]⟩
    let B : ArpConfig := ⟨Config.ipv4From ![10, 0, 0, 2], 0, ![2, 0, 0, 0, 0, 2]⟩
    let req := ((A.makeRequest (Config.ipv4From ![10, 0, 0, 2])).run (Frame.ofBytes [])).mem
    ((A.handle (.new 0) 7).run ((B.handle (.new 0) 5).run req).mem).val.2.lookup
      (Config.ipv4From ![10, 0, 0, 2]) = some ![2, 0, 0, 0, 0, 2] := by
  intro A B req
  obtain ⟨-, hanswer, -⟩ := arp_exchange A B (.new 0) (.new 0) (Config.ipv4From ![10, 0, 0, 2]) 5 7
    (Frame.ofBytes []) (by decide +kernel)
  exact (hanswer (Or.inl rfl) (by decide) (by decide)).2.2.2.2.2.1

end VioletGateway
