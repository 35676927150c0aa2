import VioletGateway.Gateway.Bounds
import VioletGateway.Neighbor.History

/-!
# What the gateway learns

Two paths write the neighbor table while frames are handled: ARP replies and the source addresses of
IPv4 frames. `handle_neighbors` says what a frame leaves in the table. Both paths go through `learn`,
so a seeded address keeps its MAC address whatever is received; but each path checks what the other
does not, and `sane_iff` says which frames get past them.
-/

set_option autoImplicit false

namespace VioletGateway

open Support

/-! ## ARP replies -/

namespace Frame

variable (f : Frame)

/-- The frame is an ARP reply that the parser accepts. -/
def IsArpReply : Prop :=
  (parseArp.run f).val.isOk = true ∧
    beToCpu16 (f.u16 (kEthHdrLen + ArpHdr.opcode)) = arpOpReply

def arpSenderIp : UInt32 := f.u32 (kEthHdrLen + ArpHdr.sip)

def arpSenderMac : EtherAddr := f.mac (kEthHdrLen + ArpHdr.sha)

/-- The frame is an ARP reply whose sender is learned. -/
def Announces : Prop :=
  f.IsArpReply ∧ f.arpSenderIp ≠ 0 ∧ isZeroMac f.arpSenderMac = false

instance : Decidable f.IsArpReply := inferInstanceAs (Decidable (_ ∧ _))

instance : Decidable f.Announces := inferInstanceAs (Decidable (_ ∧ _))

variable {f}

theorem IsArpReply.parse (h : f.IsArpReply) : (parseArp.run f).val = .ok ⟨0, 14⟩ := by
  have hok := h.1
  cases hv : (parseArp.run f).val with
  | error e =>
      rw [hv] at hok
      cases hok
  | ok v => rw [(parseArp_ok hv).2]

end Frame

/-- A frame that the ARP parser accepts is an ARP frame. -/
theorem hasType_of_parseArp {f : Frame} {v : ArpView} (h : (parseArp.run f).val = .ok v) :
    f.HasType etherTypeArp := by
  have hlen := (parseArp_ok h).1
  refine ⟨?_, ?_⟩
  · simp only [EtherHdr.size]
    omega
  · simp only [parseArp, Traced.bind_val, Traced.ite_val, Traced.pure_val, headersFit_val,
      headersFit_mem, Bool.not_eq_true', decide_eq_false_iff_not, read16_val] at h
    split_ifs at h with _ htype
    exact not_not.mp htype

theorem Frame.HasType.not_ipv4 {f : Frame} (h : f.HasType etherTypeArp) :
    ¬f.HasType etherTypeIpv4 := by
  rintro ⟨-, htype⟩
  rw [h.2] at htype
  exact absurd htype (by decide)

namespace ArpConfig

variable (cfg : ArpConfig) (N : NeighborTable) (now : UInt64) {f : Frame}

theorem handle_of_announces (h : f.Announces) :
    ((cfg.handle N now).run f).val =
      ({ learnedIp := f.arpSenderIp }, N.learn f.arpSenderIp f.arpSenderMac now) := by
  obtain ⟨hreply, hip, hmac⟩ := h
  have hop : beToCpu16 (f.u16 (14 + ArpHdr.opcode)) = arpOpReply := hreply.2
  have hreq : ¬beToCpu16 (f.u16 (14 + ArpHdr.opcode)) = arpOpRequest := by
    intro hreq
    exact absurd (hreq.symm.trans hop) (by decide)
  have hip' : ¬f.u32 (14 + ArpHdr.sip) = 0 := hip
  have hmac' : ¬isZeroMac (f.mac (14 + ArpHdr.sha)) = true := Bool.eq_false_iff.mp hmac
  rw [ArpConfig.handle]
  simp only [Traced.bind_val, parseArp_mem, hreply.parse, read16_val, read16_mem,
    if_neg hreq, if_pos hop]
  rw [handleReply]
  simp only [Traced.bind_val, read32_val, read32_mem, readMac_val, Traced.pure_val, if_neg hip',
    if_neg hmac']
  rfl

/-- Other frames leave the table alone and report nothing. -/
theorem handle_of_not_announces (h : ¬f.Announces) :
    ((cfg.handle N now).run f).val.2 = N ∧ ((cfg.handle N now).run f).val.1.learnedIp = 0 := by
  rw [ArpConfig.handle]
  simp only [Traced.bind_val, parseArp_mem]
  cases hv : (parseArp.run f).val with
  | error e => exact ⟨rfl, rfl⟩
  | ok v =>
      obtain rfl := (parseArp_ok hv).2
      simp only [Traced.bind_val, read16_val, read16_mem, Traced.ite_val]
      split_ifs with hreq hreply
      · exact ⟨rfl, rfl⟩
      · rw [handleReply]
        simp only [Traced.bind_val, read32_val, read32_mem, readMac_val, Traced.ite_val,
          Traced.pure_val]
        split_ifs with hip hmac
        · exact ⟨rfl, rfl⟩
        · exact ⟨rfl, rfl⟩
        · exact absurd ⟨⟨by rw [hv]; rfl, hreply⟩, hip, Bool.eq_false_iff.mpr hmac⟩ h
      · exact ⟨rfl, rfl⟩

end ArpConfig

/-! ## The table after a frame -/

namespace VioletGW

variable (rte : Rte) (g : VioletGW) (now : UInt64) {f : Frame}

theorem handle_of_arp (h : f.HasType etherTypeArp) :
    ((g.handle rte now).run f).val = ((g.handleArp now).run f).val := by
  rw [handle]
  simp only [Traced.bind_val, ethertype_mem, ethertype_val, if_pos h.1, if_pos h.2]

/-- An ARP reply is consumed, and its sender is learned and reported. -/
theorem handle_of_announces (h : f.Announces) :
    ((g.handle rte now).run f).val = ({ learnedIp := f.arpSenderIp },
      { g with neighbors := g.neighbors.learn f.arpSenderIp f.arpSenderMac now }) := by
  rw [g.handle_of_arp rte now (hasType_of_parseArp h.1.parse)]
  rw [handleArp]
  simp only [Traced.bind_val, Traced.pure_val, g.acfg.handle_of_announces g.neighbors now h]

/-- The neighbor table after a frame: at most one address is learned. -/
theorem handle_neighbors (f : Frame) :
    ((g.handle rte now).run f).val.2.neighbors =
      if f.Announces then g.neighbors.learn f.arpSenderIp f.arpSenderMac now
      else g.neighbors.learnFrom f now := by
  split_ifs with hann
  · rw [g.handle_of_announces rte now hann]
  · have hnone : ¬f.HasType etherTypeIpv4 → g.neighbors.learnFrom f now = g.neighbors := by
      intro htype
      rw [NeighborTable.learnFrom]
      refine if_neg fun hlearn => htype ⟨?_, hlearn.1.2⟩
      have hlen := hlearn.1.1
      simp only [EtherHdr.size, Ipv4Hdr.size] at hlen ⊢
      omega
    by_cases harp : f.HasType etherTypeArp
    · rw [g.handle_of_arp rte now harp, hnone harp.not_ipv4]
      exact (g.acfg.handle_of_not_announces g.neighbors now hann).1
    · rw [handle]
      simp only [Traced.bind_val, ethertype_mem, ethertype_val, Traced.ite_val]
      by_cases hlen : EtherHdr.size ≤ f.dataLen.toNat
      · simp only [if_pos hlen, if_neg fun h => harp ⟨hlen, h⟩]
        split_ifs with hipv4
        · simp only [handleIpv4, Traced.bind_val, passiveLearnIpv4_val, Traced.ite_val,
            Traced.pure_val]
          split_ifs <;> rfl
        · exact (hnone fun h => hipv4 h.2).symm
      · rw [if_neg hlen, if_neg (by decide), if_neg (by decide)]
        exact (hnone fun h => hlen h.1).symm

/-- The calls by which frames and timers reach the gateway. -/
inductive Call
  | handle (nowMs : UInt64) (f : Frame)
  | expireSessions (nowMs : UInt64)
  | expireNeighbors (nowMs : UInt64)

/-- The gateway after a call. -/
def call (g : VioletGW) : Call → VioletGW
  | .handle nowMs f => ((g.handle rte nowMs).run f).val.2
  | .expireSessions nowMs => g.expireSessions nowMs
  | .expireNeighbors nowMs => g.expireNeighbors nowMs

end VioletGW

/-! ## Seeded addresses -/

namespace NeighborTable

/-- `ip` has a static entry with the MAC address `mac`. -/
def Static (N : NeighborTable) (ip : UInt32) (mac : EtherAddr) : Prop :=
  ∃ e, N.entries.lookup ip = some e ∧ e.isStatic = true ∧ e.mac = mac

variable {N : NeighborTable} {ip : UInt32} {mac : EtherAddr}

theorem Static.lookup (h : N.Static ip mac) : N.lookup ip = some mac := by
  obtain ⟨e, he, -, rfl⟩ := h
  simp only [NeighborTable.lookup, he, Option.map_some]

theorem Static.learn (h : N.Static ip mac) (ip' : UInt32) (mac' : EtherAddr) (now : UInt64) :
    (N.learn ip' mac' now).Static ip mac := by
  obtain ⟨e, he, hstatic, hmac⟩ := h
  refine ⟨e, ?_, hstatic, hmac⟩
  rw [entries_learn, if_neg, he]
  rintro ⟨rfl, hnot⟩
  rw [(hasStatic_iff N ip).mpr ⟨e, he, hstatic⟩] at hnot
  cases hnot

theorem Static.expire (h : N.Static ip mac) (now : UInt64) : (N.expire now).Static ip mac := by
  obtain ⟨e, he, hstatic, hmac⟩ := h
  refine ⟨e, ?_, hstatic, hmac⟩
  rw [entries_expire, he, Option.bind_some, expireEntry, if_pos hstatic]

theorem Static.learnFrom (h : N.Static ip mac) (f : Frame) (now : UInt64) :
    (N.learnFrom f now).Static ip mac := by
  rw [NeighborTable.learnFrom]
  split_ifs
  · exact h.learn _ _ now
  · exact h

end NeighborTable

namespace VioletGW

variable (rte : Rte)

theorem init_neighbors (cfg : ServiceConfig) (shm : Option CpUpdate) (nicMac : Option EtherAddr) :
    (init cfg shm nicMac).neighbors =
      (NeighborTable.new cfg.arpEntryTimeoutMs).seed cfg.upstream0.ip cfg.upstreamNhMac := by
  cases nicMac <;> rfl

theorem call_static {ip : UInt32} {mac : EtherAddr} (g : VioletGW) (c : Call)
    (h : g.neighbors.Static ip mac) : (g.call rte c).neighbors.Static ip mac := by
  cases c with
  | handle now f =>
      rw [call, handle_neighbors]
      split_ifs
      · exact h.learn _ _ now
      · exact h.learnFrom f now
  | expireSessions now => exact h
  | expireNeighbors now => exact h.expire now

/-- The neighbor table answers as its history says, and whatever frames the gateway handles, the
address that `init_services` seeds keeps its MAC address. -/
theorem neighborTable_refines_history :
    (∀ (timeout : UInt64) (ops : List NeighborTable.Op), NeighborTable.Chronological ops →
      ∀ (ip : UInt32) (mac : EtherAddr), (NeighborTable.after timeout ops).lookup ip = some mac ↔
        NeighborTable.Seeded ip mac ops ∨
          (NeighborTable.NeverSeeded ip ops ∧
            ∃ t, NeighborTable.Remembered timeout ip mac t ops)) ∧
    ∀ (cfg : ServiceConfig) (shm : Option CpUpdate) (nicMac : Option EtherAddr) (calls : List Call),
      (run (call rte) (init cfg shm nicMac) calls).neighbors.lookup cfg.upstream0.ip =
        some cfg.upstreamNhMac := by
  refine ⟨fun timeout ops hchron ip mac => NeighborTable.lookup_history hchron ip mac, ?_⟩
  intro cfg shm nicMac calls
  have hstart : (init cfg shm nicMac).neighbors.Static cfg.upstream0.ip cfg.upstreamNhMac := by
    rw [init_neighbors]
    exact ⟨_, (NeighborTable.entries_seed _ _ _ _).trans (if_pos rfl), rfl, rfl⟩
  exact (run_invariant (P := fun g : VioletGW => g.neighbors.Static _ _) (call_static rte) hstart
    calls).lookup

/-- An ARP reply from `ip`. -/
def arpReplyFrom (ip : List UInt8) : Frame :=
  .ofBytes ([2, 0, 0, 0, 0, 1] ++ [2, 0, 0, 0, 0, 9] ++ [0x08, 0x06] ++
    [0, 1, 0x08, 0x00, 6, 4, 0, 2] ++ [2, 0, 0, 0, 0, 9] ++ ip ++ [2, 0, 0, 0, 0, 1] ++
    [192, 168, 1, 10])

/-- Two frames that give the seeded address another MAC address. -/
def labSpoofed : List Call :=
  [.handle 0 (arpReplyFrom [10, 0, 0, 1]), .handle 1 (.udp [10, 0, 0, 1] [192, 168, 1, 10] 53 4000)]

/-- A learned address survives a sweep before its timeout, and a seeded one keeps its MAC address. -/
theorem neighborTable_refines_history_lab :
    (NeighborTable.after 300000 [.learn 9 (fun _ => 1) 0, .expire 299999, .seed 7 fun _ => 2,
        .learn 7 (fun _ => 3) 299999]).lookup 9 = some (fun _ => 1) ∧
      (run (call Rte.dpdk) (init .lab none none) labSpoofed).neighbors.lookup
        ServiceConfig.lab.upstream0.ip = some ServiceConfig.lab.upstreamNhMac := by
  obtain ⟨hhistory, hgateway⟩ := neighborTable_refines_history Rte.dpdk
  refine ⟨(hhistory 300000 _ ?_ 9 _).mpr (Or.inr ⟨?_, 0, ?_⟩), hgateway .lab none none labSpoofed⟩
  · rw [NeighborTable.Chronological]
    decide
  · simp [NeighborTable.NeverSeeded, NeighborTable.seedOf]
  · refine ⟨_, ⟨[], _, rfl, rfl, ?_⟩, ?_⟩
    · simp [NeighborTable.learnOf]
    · simp

end VioletGW

/-! ## Sound entries -/

/-- A pair that both paths are meant to admit. -/
def SoundPair (ip : UInt32) (mac : EtherAddr) : Prop :=
  ip ≠ 0 ∧ firstOctet ip < 224 ∧ isZeroMac mac = false

namespace NeighborTable

/-- The dynamic entries are sound. -/
def Sane (N : NeighborTable) : Prop :=
  ∀ ip e, N.entries.lookup ip = some e → e.isStatic = false → SoundPair ip e.mac

variable {N : NeighborTable}

/-- Learning keeps the table sane exactly if the pair is sound or the address is seeded. -/
theorem Sane.learn_iff (h : N.Sane) (ip : UInt32) (mac : EtherAddr) (now : UInt64) :
    (N.learn ip mac now).Sane ↔ N.hasStatic ip = true ∨ SoundPair ip mac := by
  constructor
  · intro hsane
    by_cases hstatic : N.hasStatic ip = true
    · exact Or.inl hstatic
    · have hentry := (entries_learn N ip ip mac now).trans
        (if_pos ⟨rfl, Bool.eq_false_iff.mpr hstatic⟩)
      exact Or.inr (hsane ip _ hentry rfl)
  · intro hok ip' e he hdyn
    rw [entries_learn] at he
    split_ifs at he with hself
    · obtain ⟨rfl, hstatic⟩ := hself
      obtain rfl := Option.some.inj he
      rcases hok with htrue | hsound
      · rw [hstatic] at htrue
        cases htrue
      · exact hsound
    · exact h ip' e he hdyn

theorem Sane.expire (h : N.Sane) (now : UInt64) : (N.expire now).Sane := by
  intro ip e he hdyn
  rw [entries_expire, Option.bind_eq_some_iff] at he
  obtain ⟨e', he', hkeep⟩ := he
  -- the sweep keeps entries as they are
  have heq : e = e' := by
    rw [expireEntry] at hkeep
    split_ifs at hkeep <;> exact (Option.some.inj hkeep).symm
  rw [heq] at hdyn ⊢
  exact h ip e' he' hdyn

end NeighborTable

namespace VioletGW

/-- The frame puts a pair into the table that the other path would have refused: an ARP reply for a
multicast or reserved address, or an IPv4 frame without a source MAC address. -/
def Slips (g : VioletGW) (f : Frame) : Prop :=
  (f.Announces ∧ ¬firstOctet f.arpSenderIp < 224 ∧ g.neighbors.hasStatic f.arpSenderIp = false) ∨
    (f.Learnable ∧ isZeroMac (f.mac EtherHdr.srcAddr) = true ∧
      g.neighbors.hasStatic f.srcIp = false)

/-- The call handles no frame that slips through. -/
def Call.Clean (g : VioletGW) : Call → Prop
  | .handle _ f => ¬g.Slips f
  | _ => True

theorem call_sane_iff (rte : Rte) (g : VioletGW) (c : Call) (h : g.neighbors.Sane) :
    (g.call rte c).neighbors.Sane ↔ c.Clean g := by
  cases c with
  | handle now f =>
      rw [call, handle_neighbors, Call.Clean, Slips]
      split_ifs with hann
      · -- an ARP frame is not an IPv4 frame
        have hnot : ¬f.Learnable := by
          intro hlearn
          refine (hasType_of_parseArp hann.1.parse).not_ipv4 ⟨?_, hlearn.1.2⟩
          exact (hasType_of_parseArp hann.1.parse).1
        rw [h.learn_iff, SoundPair]
        simp only [hann, hnot, true_and, false_and, or_false, not_and, Bool.not_eq_false, hann.2.1,
          hann.2.2, ne_eq, not_false_eq_true, and_true]
        tauto
      · rw [NeighborTable.learnFrom]
        split_ifs with hlearn
        · rw [h.learn_iff, SoundPair]
          simp only [hann, hlearn, true_and, false_and, false_or, not_and, Bool.not_eq_false,
            hlearn.2.1, hlearn.2.2, ne_eq, not_false_eq_true]
          cases isZeroMac (f.mac EtherHdr.srcAddr) <;> simp
        · simp only [hann, hlearn, false_and, or_false, not_false_eq_true, iff_true]
          exact h
  | expireSessions now => exact iff_of_true h trivial
  | expireNeighbors now => exact iff_of_true (h.expire now) trivial

/-- In every state that the gateway reaches by handling frames and expiring entries the neighbor table
is sane if and only if no frame on the way slipped through the checks of its path. -/
theorem sane_iff (rte : Rte) (cfg : ServiceConfig) (shm : Option CpUpdate)
    (nicMac : Option EtherAddr) (calls : List Call) :
    (∀ calls', calls' <+: calls →
        (run (call rte) (init cfg shm nicMac) calls').neighbors.Sane) ↔
      Along (call rte) (fun g c => c.Clean g) (init cfg shm nicMac) calls := by
  refine forall_prefix_iff_along (P := fun g : VioletGW => g.neighbors.Sane) (call_sane_iff rte) ?_
  intro ip e he hdyn
  -- the only entry at the start is the seeded one
  rw [init_neighbors, NeighborTable.entries_seed] at he
  split_ifs at he
  · obtain rfl := Option.some.inj he
    cases hdyn
  · cases he

/-- An ARP reply for a multicast address is learned. -/
theorem arpReplyFrom_multicast_not_sane :
    ¬(run (call Rte.dpdk) (init .lab none none)
      [.handle 0 (arpReplyFrom [224, 0, 0, 1])]).neighbors.Sane := by
  intro h
  have hentry : ∃ e, (run (call Rte.dpdk) (init .lab none none)
      [.handle 0 (arpReplyFrom [224, 0, 0, 1])]).neighbors.entries.lookup
        (Config.ipv4From ![224, 0, 0, 1]) = some e ∧ e.isStatic = false := by
    exact ⟨_, rfl, rfl⟩
  obtain ⟨e, he, hdyn⟩ := hentry
  exact absurd (h _ e he hdyn).2.1 (by decide)

end VioletGW

end VioletGateway
