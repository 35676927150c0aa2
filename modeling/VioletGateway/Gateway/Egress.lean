import VioletGateway.Gateway.Flush
import VioletGateway.Gateway.Probe
import VioletGateway.Gateway.Refinement

/-!
# What the gateway puts on the wire

Everything that is ever placed in the transmit array, whatever is received and whatever the control
plane installs, is one of four things (`Wire`): an ARP request of the gateway, an ARP reply for one of
its two addresses, a client's packet to an installed upstream, or a packet from the VIP to a client
that wrote to the VIP before. The gateway does not relay, and nobody is sent anything for a packet with
a foreign destination.

`Vetted` is the invariant: it follows the endpoints from the control plane and from the received frames
into the sessions, from there into the queues, and into the array.
-/

set_option autoImplicit false

namespace VioletGateway

open Support

/-! ## ARP replies -/

namespace Frame

/-- The fields of an ARP frame, as they are read. -/
def arpFields (f : Frame) : ArpFields where
  ethDst := f.mac EtherHdr.dstAddr
  ethSrc := f.mac EtherHdr.srcAddr
  opcode := beToCpu16 (f.u16 (kEthHdrLen + ArpHdr.opcode))
  sha := f.mac (kEthHdrLen + ArpHdr.sha)
  sip := f.u32 (kEthHdrLen + ArpHdr.sip)
  tha := f.mac (kEthHdrLen + ArpHdr.tha)
  tip := f.u32 (kEthHdrLen + ArpHdr.tip)

/-- A frame that the ARP parser accepts has its fields, once its padding is cut off. -/
theorem isArp_of_parseArp {f : Frame} {v : ArpView} (h : (parseArp.run f).val = .ok v) :
    (f.setLen kArpFrameLen).IsArp f.arpFields := by
  simp only [parseArp, Traced.bind_val, Traced.ite_val, Traced.pure_val, headersFit_val,
    headersFit_mem, read16_val, read16_mem, read8_val, read8_mem, Bool.not_eq_true',
    decide_eq_false_iff_not] at h
  split_ifs at h with hlen htype hfields
  rw [not_not] at htype
  simp only [not_or, not_not] at hfields
  obtain ⟨hhrd, hpro, hhlen, hplen⟩ := hfields
  have hbe : ∀ {x y : UInt16}, beToCpu16 x = y → x = cpuToBe16 y := by
    rintro x y rfl
    -- the two conversions swap bytes alike
    exact (beToCpu16_cpuToBe16 x).symm
  exact ⟨rfl, hbe htype, hbe hhrd, hbe hpro, hhlen, hplen, rfl, rfl, hbe rfl, rfl, rfl, rfl, rfl⟩

end Frame

namespace ArpConfig

variable (cfg : ArpConfig)

/-- `make_reply` does not look at the length. -/
theorem makeReply_setLen (v : ArpView) (ip : UInt32) (f : Frame) (n : UInt16) :
    ((cfg.makeReply v ip).run (f.setLen n)).mem = ((cfg.makeReply v ip).run f).mem := by
  rw [makeReply]
  simp only [Traced.bind_mem, Traced.pure_mem, setDataLen_mem, write16_mem, write32_mem,
    writeMac_mem, readMac_val, readMac_mem, read32_val, read32_mem]
  rfl

/-- The handler answers only requests for its own addresses, padded or not, and with its own MAC
address. -/
theorem handle_answers {N : NeighborTable} {now : UInt64} {f : Frame}
    (hres : ((cfg.handle N now).run f).val.1.result = .txArp) :
    ∃ F : ArpFields, cfg.isProxyTarget F.tip = true ∧
      ((cfg.handle N now).run f).mem.IsArp (cfg.replyFields F) := by
  rw [ArpConfig.handle] at hres ⊢
  simp only [Traced.bind_val, Traced.bind_mem, parseArp_mem] at hres ⊢
  cases hparse : (parseArp.run f).val with
  | error e =>
      rw [hparse] at hres
      cases hres
  | ok v =>
      have hfields := Frame.isArp_of_parseArp hparse
      obtain rfl := (parseArp_ok hparse).2
      simp only [hparse, Traced.bind_val, Traced.bind_mem, read16_val, read16_mem, Traced.ite_val,
        Traced.ite_mem] at hres ⊢
      split_ifs at hres ⊢ with hreq hreply
      · rw [handleRequest] at hres ⊢
        simp only [Traced.bind_val, Traced.bind_mem, read32_val, read32_mem, Traced.ite_val,
          Traced.ite_mem, Traced.pure_val, Traced.pure_mem] at hres ⊢
        split_ifs at hres ⊢ with htarget
        rw [Bool.not_eq_true', Bool.not_eq_false] at htarget
        refine ⟨f.arpFields, htarget, ?_⟩
        have hreply := (cfg.makeReply_isArp hfields).2
        rw [makeReply_setLen] at hreply
        exact hreply
      · rw [handleReply] at hres
        simp only [Traced.bind_val, read32_val, read32_mem, readMac_val, Traced.ite_val,
          Traced.pure_val] at hres
        split_ifs at hres

end ArpConfig

/-! ## Frames on the wire -/

/-- Writing the MAC addresses that a frame has changes nothing. -/
theorem Frame.withL2_self (f : Frame) :
    f.withL2 (f.mac EtherHdr.srcAddr) (f.mac EtherHdr.dstAddr) = f := by
  have hput : ∀ off, f.put off (f.mac off) = f := fun off =>
    congrArg (fun d => { f with data := d }) (ByteMem.store_load_self off 6)
  rw [Frame.withL2, hput, hput]

section Wire

variable (cfg : ServiceConfig) (mac : EtherAddr) (installed contacted : Endpoint → Prop)

/-- A client's packet to an upstream that was installed, or a packet from the VIP to a client that has
written to it. -/
inductive Translated (f : Frame) : Prop
  | forward {port : UInt16} {b : Endpoint} (haccepts : f.Accepts)
      (hport : SessionTable.InSnatRange 10000 60000 port) (hb : installed b)
      (hends : f.endpoints = ((cfg.gatewayIp, port), b))
  | reverse {c : Endpoint} (haccepts : f.Accepts) (hc : contacted c)
      (hends : f.endpoints = ((cfg.vip.ip, cfg.vip.port), c))

/-- The ARP handler of the gateway. -/
def arpOf : ArpConfig := ⟨cfg.gatewayIp, cfg.vip.ip, mac⟩

/-- A frame that the gateway may send. -/
inductive Wire (f : Frame) : Prop
  | request (ip : UInt32) (h : f.IsArp ((arpOf cfg mac).requestFields ip))
  | reply (F : ArpFields) (hown : F.tip = cfg.gatewayIp ∨ F.tip = cfg.vip.ip)
      (h : f.IsArp ((arpOf cfg mac).replyFields F))
  | udp (h : Translated cfg installed contacted f) (hsrc : f.mac EtherHdr.srcAddr = mac)

variable {cfg installed contacted} {f : Frame}

/-- The MAC addresses of a translated frame do not matter. -/
theorem Translated.withL2 (h : Translated cfg installed contacted f) (src dst : EtherAddr) :
    Translated cfg installed contacted (f.withL2 src dst) := by
  cases h with
  | forward haccepts hport hb hends =>
      have hsame := Frame.endpoints_withL2 haccepts.1.ihl_ge src dst
      exact .forward (haccepts.withL2 src dst).1 hport hb (hsame.trans hends)
  | reverse haccepts hc hends =>
      have hsame := Frame.endpoints_withL2 haccepts.1.ihl_ge src dst
      exact .reverse (haccepts.withL2 src dst).1 hc (hsame.trans hends)

/-- Attempts to send a frame change nothing but its MAC addresses. -/
theorem Translated.of_sameButL2 {g : Frame} (h : Translated cfg installed contacted f)
    (hsame : g.SameButL2 f) : Translated cfg installed contacted g := by
  have hself := hsame (g.mac EtherHdr.srcAddr) (g.mac EtherHdr.dstAddr)
  rw [Frame.withL2_self] at hself
  rw [hself]
  exact h.withL2 _ _

end Wire

/-! ## Sessions -/

section Sessions

variable {installed contacted : Endpoint → Prop}

/-- The endpoints of a session come from the control plane and from a received frame. -/
def Session.Sound (installed contacted : Endpoint → Prop) (s : Session) : Prop :=
  installed s.upstream ∧ contacted s.client

theorem Session.Sound.congr {s s' : Session} (h : s.Sound installed contacted)
    (hsame : s.SameButTime s') : s'.Sound installed contacted := by
  rw [Session.Sound, hsame.client, hsame.upstream]
  exact h

/-- Picking an upstream leaves the list alone. -/
theorem Forwarder.sessionFor_nodes (g : VioletGW) (key : FlowKey) (now : UInt64) :
    (g.forwarder.sessionFor g.forwardState key now).2.pickerState.nodes = g.upstreams.nodes := by
  have hpick : (upstreamPicker key g.upstreams).2.nodes = g.upstreams.nodes :=
    g.upstreams.pick_nodes key
  rw [sessionFor]
  split
  · rfl
  · dsimp only [VioletGW.forwarder]
    split
    · exact hpick
    · split_ifs <;> exact hpick

/-- A new session is for an installed upstream. -/
theorem Forwarder.sessionFor_sound {g : VioletGW} (h : g.sessions.Inv)
    (hnodes : ∀ ep ∈ g.upstreams.nodes, installed (ep.ip, ep.port))
    (hsessions : ∀ p s, g.sessions.heap p = some s → s.Sound installed contacted) {key : FlowKey}
    (hkey : contacted (key.srcIp, key.srcPort)) {now : UInt64} {p : SessionPtr} {s : Session}
    (hs : (g.forwarder.sessionFor g.forwardState key now).2.sessions.heap p = some s) :
    s.Sound installed contacted := by
  have hinv : g.forwardState.sessions.Inv := h
  have hstep := g.forwarder.sessionFor_cases hinv key now
  generalize g.forwarder.sessionFor g.forwardState key now = r at hstep hs
  cases hstep with
  | @found q _ _ _ =>
      obtain ⟨s₀, hs₀, rfl⟩ := (SessionTable.touch_heap_iff g.sessions (some q) now p s).mp hs
      exact (hsessions p s₀ hs₀).congr (by split_ifs <;> rfl)
  | refused => exact hsessions p s hs
  | @created _ picker hpicker up hpick _ _ =>
      rcases SessionTable.create_heap hinv hs with hold | ⟨-, -, snat, rfl⟩
      · exact hsessions p s hold
      · obtain rfl := Option.some.inj hpicker
        obtain ⟨ep, hep, rfl⟩ := Option.map_eq_some_iff.mp hpick
        exact ⟨hnodes ep (UpstreamTable.mem_nodes_of_pick hep), hkey⟩

end Sessions

/-! ## Handled frames -/

section Handled

variable {cfg : ServiceConfig} {mac : EtherAddr} {installed contacted : Endpoint → Prop} {rte : Rte}

/-- What the gateway needs to have for `Wire`. -/
structure VioletGW.Sound (cfg : ServiceConfig) (mac : EtherAddr) (installed contacted : Endpoint → Prop)
    (g : VioletGW) : Prop where
  acfg : g.acfg = arpOf cfg mac
  gatewayMac : g.fcfg.gatewayMac = mac
  nodes : ∀ ep ∈ g.upstreams.nodes, installed (ep.ip, ep.port)
  sessions : ∀ p s, g.sessions.heap p = some s → s.Sound installed contacted

/-- The frame may be the first one of a session. -/
def Contacts (cfg : ServiceConfig) (contacted : Endpoint → Prop) (f : Frame) : Prop :=
  f.Accepts → f.endpoints.2 = (cfg.vip.ip, cfg.vip.port) → contacted f.endpoints.1

/-- A frame that is sent at once has the MAC address of the gateway. -/
theorem Forwarder.sendFrame_mac {σ : Type} (fw : Forwarder σ) {hop : Option EtherAddr} {ip : UInt32}
    {sent : HandleResult} (hres : (sendOutcome hop ip sent).result ≠ .pendingArp) (f : Frame) :
    (fw.sendFrame hop f).mac EtherHdr.srcAddr = fw.cfg.gatewayMac := by
  cases hop with
  | none => exact absurd rfl hres
  | some dst => exact (f.mac_withL2 _ dst).1

variable {g g' : VioletGW} {now : UInt64} {f f' : Frame} {o : HandleOutcome}

/-- Handling a frame leaves the gateway sound. -/
theorem VioletGW.HandleStep.sound (hstep : g.HandleStep rte now f o g' f')
    (h : g.Sound cfg mac installed contacted) (hinv : g.sessions.Inv) (hvip : g.fcfg.vip = cfg.vip)
    (hf : Contacts cfg contacted f) : g'.Sound cfg mac installed contacted := by
  have hforward : (g.learnFrom f now).forwarder.ToVip rte f →
      ((g.learnFrom f now).withForwardState ((g.learnFrom f now).forwarder.sessionFor
        (g.learnFrom f now).forwardState f.flowKey now).2).Sound cfg mac installed contacted := by
    rintro ⟨hparse, hip, hport⟩
    have hclient : contacted (f.flowKey.srcIp, f.flowKey.srcPort) := by
      refine hf hparse.accepts (Prod.ext ?_ ?_)
      · exact hip.trans (congrArg VipEndpoint.ip hvip)
      · exact hport.trans (congrArg VipEndpoint.port hvip)
    refine ⟨h.acfg, h.gatewayMac, ?_, ?_⟩
    · intro ep hep
      rw [withForwardState, Forwarder.sessionFor_nodes] at hep
      exact h.nodes ep hep
    · exact fun p s hs => Forwarder.sessionFor_sound (g := g.learnFrom f now) hinv h.nodes h.sessions
        hclient hs
  cases hstep with
  | other => exact h
  | arp => exact ⟨h.acfg, h.gatewayMac, h.nodes, h.sessions⟩
  | ipv4 _ hfwd =>
      cases hfwd with
      | ignored => exact ⟨h.acfg, h.gatewayMac, h.nodes, h.sessions⟩
      | refused hvip _ => exact hforward hvip
      | forward hvip _ _ _ => exact hforward hvip
      | unknown => exact ⟨h.acfg, h.gatewayMac, h.nodes, h.sessions⟩
      | @reverse _ p s _ _ =>
          refine ⟨h.acfg, h.gatewayMac, h.nodes, ?_⟩
          intro q u hu
          obtain ⟨u₀, hu₀, rfl⟩ := (SessionTable.touch_heap_iff g.sessions (some p) now q u).mp hu
          exact (h.sessions q u₀ hu₀).congr (by split_ifs <;> rfl)

/-- The ports of the sessions are those of the default range. -/
theorem SessionTable.port_inRange {gw : UInt32} {idle : UInt64} {t : SessionTable}
    (hr : Reaches (.new gw idle) t) {p : SessionPtr} {s : Session} (hs : t.heap p = some s) :
    InSnatRange 10000 60000 s.snatPort := by
  have hnew : Inv (.new gw idle) := new_inv _ _ _ _ (by decide)
  have hinv := inv_of_reaches hnew hr
  have hrange : t.pool.SameRange (SnatPool.new 10000 60000) := sameRange_of_reaches hnew hr
  exact (inRange_iff_of_sameRange hrange _).mp
    (hinv.pool.inUse_inRange _ ((hinv.owner_iff _).mpr ⟨p, s, hs, rfl⟩))

/-- What the forwarder does not drop is translated, and has the MAC address of the gateway unless it
has to wait. -/
theorem Forwarder.HandleStep.translated {fw : Forwarder UpstreamTable}
    {st st' : ForwardState UpstreamTable} (hstep : fw.HandleStep rte st now f o st' f')
    (hip : fw.cfg.gatewayIp = cfg.gatewayIp)
    (hmade : ∀ p s, st.sessions.heap p = some s → (s.vipIp, s.vipPort) = (cfg.vip.ip, cfg.vip.port))
    (hold : ∀ p s, st.sessions.heap p = some s → s.Sound installed contacted)
    (hnew : ∀ p s, st'.sessions.heap p = some s → s.Sound installed contacted)
    {gw : UInt32} {idle : UInt64} (hreach : SessionTable.Reaches (.new gw idle) st'.sessions)
    (hres : o.result ≠ .drop) :
    Translated cfg installed contacted f' ∧
      (o.result ≠ .pendingArp → f'.mac EtherHdr.srcAddr = fw.cfg.gatewayMac) := by
  have haccepts := hstep.accepts hres
  cases hstep with
  | ignored => exact absurd rfl hres
  | refused => exact absurd rfl hres
  | unknown => exact absurd rfl hres
  | @forward hto p s _ hs _ =>
      refine ⟨.forward haccepts (SessionTable.port_inRange hreach hs) (hnew p s hs).1 ?_,
        fun hsent => fw.sendFrame_mac hsent _⟩
      rw [forwardNatted, endpoints_rewritten hto.1, hip]
      rfl
  | @reverse hto p s _ hs =>
      refine ⟨.reverse haccepts (hold p s hs).2 ?_, fun hsent => fw.sendFrame_mac hsent _⟩
      rw [reverseNatted, endpoints_rewritten hto.1, hmade p s hs]
      rfl

/-- A frame as it leaves the gateway, or as it waits. -/
def OutFrame (cfg : ServiceConfig) (mac : EtherAddr) (installed contacted : Endpoint → Prop)
    (result : HandleResult) (f : Frame) : Prop :=
  match result with
  | .drop => True
  | .pendingArp => Translated cfg installed contacted f
  | .txForward | .txReverse | .txArp => Wire cfg mac installed contacted f

theorem outFrame_of_translated {result : HandleResult}
    (h : result ≠ .drop → Translated cfg installed contacted f ∧
      (result ≠ .pendingArp → f.mac EtherHdr.srcAddr = mac)) :
    OutFrame cfg mac installed contacted result f := by
  cases result with
  | drop => trivial
  | pendingArp => exact (h (by decide)).1
  | txForward => exact .udp (h (by decide)).1 ((h (by decide)).2 (by decide))
  | txReverse => exact .udp (h (by decide)).1 ((h (by decide)).2 (by decide))
  | txArp => exact .udp (h (by decide)).1 ((h (by decide)).2 (by decide))

/-- The ARP part of the gateway answers requests for its own addresses, and nothing else. -/
theorem VioletGW.handle_outFrame_arp (h : g.acfg = arpOf cfg mac) (now : UInt64)
    (harp : f.HasType etherTypeArp) :
    OutFrame cfg mac installed contacted ((g.handle rte now).run f).val.1.result
      ((g.handle rte now).run f).mem := by
  have hresult : ((g.handle rte now).run f).val.1.result =
      ((g.acfg.handle g.neighbors now).run f).val.1.result := by
    rw [g.handle_of_arp rte now harp]
    rfl
  rw [hresult, VioletGW.handle_of_arp_mem now harp]
  have hanswer : ((g.acfg.handle g.neighbors now).run f).val.1.result = .txArp → _ :=
    g.acfg.handle_answers
  have hcases := g.acfg.handle_cases g.neighbors now f
  generalize (g.acfg.handle g.neighbors now).run f = r at hcases hanswer ⊢
  obtain ⟨⟨o, N⟩, f', log⟩ := r
  dsimp only at hcases hanswer ⊢
  cases hcases with
  | dropped => trivial
  | learned => trivial
  | answered =>
      obtain ⟨F, hown, hreply⟩ := hanswer rfl
      rw [h] at hown hreply
      exact .reply F (((arpOf cfg mac).isProxyTarget_iff F.tip).mp hown) hreply

/-- What the gateway does not drop may be sent, as soon as it has its MAC addresses. -/
theorem Worker.handle_outFrame {w : Worker} (hinv : w.Inv cfg) (htables : w.Tables cfg)
    (h : w.gw.Sound cfg mac installed contacted) (hf : Contacts cfg contacted f) (now : UInt64) :
    OutFrame cfg mac installed contacted ((w.gw.handle rte now).run f).val.1.result
      ((w.gw.handle rte now).run f).mem := by
  by_cases harp : f.HasType etherTypeArp
  · exact w.gw.handle_outFrame_arp h.acfg now harp
  by_cases hipv4 : f.HasType etherTypeIpv4
  · have hstep := w.gw.handle_cases rte hinv.sessions now f
    have hsound := hstep.sound h hinv.sessions hinv.vip hf
    have hreach := hstep.reaches hinv.sessions htables.sessions
    generalize (w.gw.handle rte now).run f = r at hstep hsound hreach ⊢
    obtain ⟨⟨o, g'⟩, f', log⟩ := r
    dsimp only at hstep hsound hreach ⊢
    cases hstep with
    | other hnot => exact absurd hipv4 hnot
    | arp hnot => exact absurd hipv4 hnot
    | ipv4 _ hfwd =>
        apply outFrame_of_translated
        intro hres
        have hmade : ∀ p s, w.gw.sessions.heap p = some s →
            (s.vipIp, s.vipPort) = (cfg.vip.ip, cfg.vip.port) := fun p s hs => vip_of_own hinv hs
        obtain ⟨htranslated, hmac⟩ := hfwd.translated hinv.gatewayIp hmade h.sessions hsound.sessions
          hreach hres
        exact ⟨htranslated, fun hsent => (hmac hsent).trans h.gatewayMac⟩
  · rw [VioletGW.handle_of_other now harp hipv4]
    trivial

end Handled

/-! ## The worker -/

namespace Worker

variable {cfg : ServiceConfig} {mac : EtherAddr} {installed contacted : Endpoint → Prop} {rte : Rte}
  {w : Worker}

/-- A probe is an ARP request. -/
theorem maybeProbeArp_tx {ip : UInt32} {now : UInt64} {buf : Option Frame} {cap : Nat} {m : Mbuf}
    (hm : m ∈ (w.maybeProbeArp ip now buf cap).tx.items) :
    m ∈ w.tx.items ∨ m.frame.IsArp (w.gw.acfg.requestFields ip) := by
  unfold maybeProbeArp at hm
  split_ifs at hm
  · exact Or.inl hm
  · exact Or.inl hm
  · cases buf with
    | none => exact Or.inl hm
    | some f =>
        cases hmade : ((w.gw.acfg.makeRequest ip).run (f.setLen 0)).val with
        | false =>
            have hnone : w.makeRequest ip (some f) = (none, w.acquire.free
                ⟨w.pool.next, ((w.gw.acfg.makeRequest ip).run (f.setLen 0)).mem⟩) :=
              if_neg (Bool.eq_false_iff.mp hmade)
            rw [hnone] at hm
            exact Or.inl hm
        | true =>
            have hsome : w.makeRequest ip (some f) =
                (some ⟨w.pool.next, ((w.gw.acfg.makeRequest ip).run (f.setLen 0)).mem⟩, w.acquire) :=
              if_pos hmade
            rw [hsome] at hm
            dsimp only at hm
            split_ifs at hm
            · exact Or.inl hm
            · rcases List.mem_append.mp hm with hold | hnew
              · exact Or.inl hold
              · obtain rfl := List.mem_singleton.mp hnew
                exact Or.inr (w.gw.acfg.makeRequest_isArp ip hmade)

/-- Whatever is on its way through the worker may be sent. -/
structure Vetted (cfg : ServiceConfig) (mac : EtherAddr) (installed contacted : Endpoint → Prop)
    (w : Worker) : Prop where
  inv : w.Inv cfg
  tables : w.Tables cfg
  gw : w.gw.Sound cfg mac installed contacted
  rx : ∀ m ∈ w.rx, Contacts cfg contacted m.frame
  queue : ∀ ip, ∀ e ∈ w.queue ip, Translated cfg installed contacted e.m.frame
  tx : ∀ m ∈ w.tx.items, Wire cfg mac installed contacted m.frame

end Worker

theorem VioletGW.Sound.congr {cfg : ServiceConfig} {mac : EtherAddr}
    {installed contacted : Endpoint → Prop} {g g' : VioletGW}
    (h : g.Sound cfg mac installed contacted) (hsame : g.SameCore g') :
    g'.Sound cfg mac installed contacted where
  acfg := hsame.acfg.trans h.acfg
  gatewayMac := (congrArg ForwardConfig.gatewayMac hsame.fcfg).trans h.gatewayMac
  nodes := hsame.upstreams.symm ▸ h.nodes
  sessions := hsame.sessions.symm ▸ h.sessions

namespace Worker

variable {cfg : ServiceConfig} {mac : EtherAddr} {installed contacted : Endpoint → Prop} {rte : Rte}
  {w : Worker}

/-- What disposing of a frame adds to the array and to the queues. -/
theorem dispose_sound (hacfg : w.gw.acfg = arpOf cfg mac) {o : HandleOutcome} {m : Mbuf}
    (hout : OutFrame cfg mac installed contacted o.result m.frame) (now : UInt64)
    (buf : Option Frame) (cap : Nat)
    (htx : ∀ m ∈ w.tx.items, Wire cfg mac installed contacted m.frame)
    (hqueue : ∀ ip, ∀ e ∈ w.queue ip, Translated cfg installed contacted e.m.frame) :
    (∀ m' ∈ (w.dispose o m now buf cap).tx.items, Wire cfg mac installed contacted m'.frame) ∧
      ∀ ip, ∀ e ∈ (w.dispose o m now buf cap).queue ip,
        Translated cfg installed contacted e.m.frame := by
  have hpush : Wire cfg mac installed contacted m.frame →
      ∀ m' ∈ (w.pushTx m).tx.items, Wire cfg mac installed contacted m'.frame := by
    intro hwire m' hm'
    rcases List.mem_append.mp hm' with hold | hnew
    · exact htx m' hold
    · rw [List.mem_singleton.mp hnew]
      exact hwire
  constructor
  · rw [dispose]
    cases hresult : o.result with
    | drop => exact htx
    | pendingArp =>
        intro m' hm'
        rcases maybeProbeArp_tx hm' with hold | hrequest
        · rw [(w.enqueuePending_arrays o.arpWaitIp m now).tx] at hold
          exact htx m' hold
        · rw [(w.enqueuePending_core o.arpWaitIp m now).acfg, hacfg] at hrequest
          exact .request _ hrequest
    | txForward =>
        rw [hresult] at hout
        exact hpush hout
    | txReverse =>
        rw [hresult] at hout
        exact hpush hout
    | txArp =>
        rw [hresult] at hout
        exact hpush hout
  · intro ip e he
    rcases (dispose_disposes w o m now buf cap).queue ip e he with hold | ⟨hpend, -, hm⟩
    · exact hqueue ip e hold
    · rw [hpend] at hout
      rw [hm]
      exact hout

variable (rte) in
theorem Vetted.handleRx (h : w.Vetted cfg mac installed contacted) {m : Mbuf}
    (hm : Contacts cfg contacted m.frame) (now : UInt64) (buf : Option Frame) (cap : Nat) :
    (w.handleRx rte m now buf cap).gw.Sound cfg mac installed contacted ∧
      (∀ m' ∈ (w.handleRx rte m now buf cap).tx.items,
        Wire cfg mac installed contacted m'.frame) ∧
      ∀ ip, ∀ e ∈ (w.handleRx rte m now buf cap).queue ip,
        Translated cfg installed contacted e.m.frame := by
  have hstep := w.gw.handle_cases rte h.inv.sessions now m.frame
  have hsound := hstep.sound h.gw h.inv.sessions h.inv.vip hm
  have hout : OutFrame cfg mac installed contacted ((w.gw.handle rte now).run m.frame).val.1.result
      ((w.gw.handle rte now).run m.frame).mem := handle_outFrame h.inv h.tables h.gw hm now
  have hqueue : ∀ ip, ({ w with gw := ((w.gw.handle rte now).run m.frame).val.2 } : Worker).queue ip =
      w.queue ip := fun ip => congrArg (listAt · ip) hstep.arpPending
  have hflush := flushLearned_flushes rte
    { w with gw := ((w.gw.handle rte now).run m.frame).val.2 }
    ((w.gw.handle rte now).run m.frame).val.1 now cap
  have hcore := flushLearned_core rte
    { w with gw := ((w.gw.handle rte now).run m.frame).val.2 }
    ((w.gw.handle rte now).run m.frame).val.1 now cap
  refine ⟨hsound.congr (handleRx_core rte w m now buf cap), dispose_sound
    (hcore.acfg.trans hsound.acfg) hout now buf cap ?_ ?_⟩
  · intro m' hm'
    rcases hflush.sent m' hm' with hold | ⟨e, he, -, dst, -, hframe⟩
    · exact h.tx m' hold
    · rw [hqueue] at he
      rw [hframe, hsound.gatewayMac]
      exact .udp ((h.queue _ e he).withL2 mac dst) (Frame.mac_withL2 _ mac dst).1
  · intro ip e' he'
    obtain ⟨e, he, -, hsame⟩ := hflush.queue ip e' he'
    rw [hqueue] at he
    exact (h.queue ip e he).of_sameButL2 hsame

/-! ## Steps and runs -/

/-- The endpoints that a step of the control plane installs. -/
def Event.installs : Event → List UpstreamEndpoint
  | .pollControl (some u) => u.endpoints
  | .setUpstreams endpoints => endpoints
  | _ => []

/-- The frames that a step receives. -/
def Event.receives : Event → List Frame
  | .recvBurst frames => frames
  | _ => []

theorem mem_receive {P : MbufPool} {fs : List Frame} {m : Mbuf} (hm : m ∈ (P.receive fs).1) :
    m.frame ∈ fs := by
  induction fs generalizing P with
  | nil => cases hm
  | cons f fs ih =>
      rcases List.mem_cons.mp hm with rfl | hrest
      · exact List.mem_cons_self
      · exact List.mem_cons_of_mem f (ih hrest)

theorem Vetted.step (h : w.Vetted cfg mac installed contacted) {e : Event}
    (hinstalls : ∀ ep ∈ e.installs, installed (ep.ip, ep.port))
    (hreceives : ∀ f ∈ e.receives, Contacts cfg contacted f) :
    (w.step rte e).Vetted cfg mac installed contacted := by
  have hinv := step_inv rte w e h.inv
  have htables := h.tables.step rte h.inv.sessions e
  cases e with
  | expireSessions now =>
      refine ⟨hinv, htables, ⟨h.gw.acfg, h.gw.gatewayMac, h.gw.nodes, ?_⟩, h.rx, h.queue, h.tx⟩
      exact fun p s hs => h.gw.sessions p s
        (SessionTable.isIdle_of_expire_heap h.inv.sessions.coherent hs).1
  | expireNeighbors now =>
      exact ⟨hinv, htables, ⟨h.gw.acfg, h.gw.gatewayMac, h.gw.nodes, h.gw.sessions⟩, h.rx, h.queue,
        h.tx⟩
  | expirePending now =>
      refine ⟨hinv, htables, ⟨h.gw.acfg, h.gw.gatewayMac, h.gw.nodes, h.gw.sessions⟩, h.rx, ?_, h.tx⟩
      intro ip e he
      rw [Worker.step, expirePending_queue] at he
      exact h.queue ip e (List.mem_of_mem_filter he)
  | pollControl update =>
      cases update with
      | none => exact h
      | some u =>
          exact ⟨hinv, htables, ⟨h.gw.acfg, h.gw.gatewayMac, hinstalls, h.gw.sessions⟩, h.rx, h.queue,
            h.tx⟩
  | setUpstreams endpoints =>
      exact ⟨hinv, htables, ⟨h.gw.acfg, h.gw.gatewayMac, hinstalls, h.gw.sessions⟩, h.rx, h.queue,
        h.tx⟩
  | setPolicy policy =>
      exact ⟨hinv, htables, ⟨h.gw.acfg, h.gw.gatewayMac, h.gw.nodes, h.gw.sessions⟩, h.rx, h.queue,
        h.tx⟩
  | recvBurst frames =>
      refine ⟨hinv, htables, h.gw, ?_, h.queue, h.tx⟩
      intro m hm
      rcases List.mem_append.mp hm with hold | hnew
      · exact h.rx m hold
      · exact hreceives m.frame (mem_receive hnew)
  | handleNext now buf =>
      cases hrx : w.rx with
      | nil =>
          simp only [Worker.step, hrx]
          exact h
      | cons m rest =>
          simp only [Worker.step, hrx] at hinv htables ⊢
          have hrest : ∀ m' ∈ rest, Contacts cfg contacted m'.frame := fun m' hm' =>
            h.rx m' (hrx ▸ List.mem_cons_of_mem m hm')
          have hm : Contacts cfg contacted m.frame := h.rx m (hrx ▸ List.mem_cons_self)
          have hpopped : ({ w with rx := rest } : Worker).Vetted cfg mac installed contacted :=
            ⟨⟨h.inv.vip, h.inv.gatewayIp, h.inv.tableIp, h.inv.sessions, h.inv.own, h.inv.noZero⟩,
              ⟨h.tables.sessions, h.tables.neighbors⟩, h.gw, hrest, h.queue, h.tx⟩
          obtain ⟨hgw, htx, hqueue⟩ := hpopped.handleRx rte hm now buf Config.ioRxBurst
          refine ⟨hinv, htables, hgw, ?_, hqueue, htx⟩
          rw [handleRx_rx]
          exact hrest
  | finishBurst accepted =>
      exact ⟨hinv, htables, h.gw, h.rx, h.queue, fun m hm => absurd hm List.not_mem_nil⟩

/-- The endpoints that the gateway may forward to, after the steps `es`: those of the configuration
and those that the control plane has installed on the way. -/
def Installed (cfg : ServiceConfig) (shm : Option CpUpdate) (es : List Event) (b : Endpoint) : Prop :=
  ∃ ep : UpstreamEndpoint, (ep.ip, ep.port) = b ∧
    (ep ∈ (shm.getD ⟨cfg.balancePolicy, [cfg.upstream0]⟩).endpoints ∨ ∃ e ∈ es, ep ∈ e.installs)

/-- The endpoints from which a UDP packet to the VIP was received in the steps `es`. -/
def Contacted (cfg : ServiceConfig) (es : List Event) (c : Endpoint) : Prop :=
  ∃ e ∈ es, ∃ f ∈ e.receives, f.Accepts ∧ f.endpoints = (c, (cfg.vip.ip, cfg.vip.port))

theorem start_vetted (cfg : ServiceConfig) (shm : Option CpUpdate) (nicMac : Option EtherAddr)
    (es : List Event) : (start cfg shm nicMac).Vetted cfg (nicMac.getD cfg.gatewayMac)
      (Installed cfg shm es) (Contacted cfg es) := by
  have hnodes : ∀ ep ∈ (VioletGW.initServices cfg shm).upstreams.nodes,
      Installed cfg shm es (ep.ip, ep.port) := fun ep hep => ⟨ep, rfl, Or.inl hep⟩
  refine ⟨start_inv cfg shm nicMac, start_tables cfg shm nicMac, ?_, nofun, ?_, nofun⟩
  · cases nicMac with
    | none => exact ⟨rfl, rfl, hnodes, nofun⟩
    | some m => exact ⟨rfl, rfl, hnodes, nofun⟩
  · intro ip e he
    cases nicMac <;> cases he

/-- After every run, everything in the transmit array is an ARP request of the gateway, an ARP reply
for one of its addresses, a client's packet from a port of the SNAT range to an upstream that was
installed, or a packet from the VIP to a client that had written to the VIP; and it has the MAC address
of the gateway. -/
theorem egress (rte : Rte) (cfg : ServiceConfig) (shm : Option CpUpdate) (nicMac : Option EtherAddr)
    (es : List Event) (m : Mbuf) (hm : m ∈ (run (step rte) (start cfg shm nicMac) es).tx.items) :
    Wire cfg (nicMac.getD cfg.gatewayMac) (Installed cfg shm es) (Contacted cfg es) m.frame := by
  refine (run_invariant_of_mem (P := fun w : Worker => w.Vetted cfg (nicMac.getD cfg.gatewayMac)
    (Installed cfg shm es) (Contacted cfg es)) ?_ (start_vetted cfg shm nicMac es)).tx m hm
  intro w e he hw
  refine hw.step ?_ ?_
  · exact fun ep hep => ⟨ep, rfl, Or.inr ⟨e, he, hep⟩⟩
  · exact fun f hf haccepts hdst => ⟨e, he, f, hf, haccepts, Prod.ext rfl hdst⟩

/-- The frame of the lab client is on its way to the upstream of the lab. -/
theorem egress_lab :
    ∃ m ∈ (run (step Rte.dpdk) (start .lab none none)
        [.recvBurst [labClientFrame], .handleNext 0 none]).tx.items,
      Wire .lab Config.gatewayMac
        (Installed .lab none [.recvBurst [labClientFrame], .handleNext 0 none])
        (Contacted .lab [.recvBurst [labClientFrame], .handleNext 0 none]) m.frame := by
  have hlen : 0 < (run (step Rte.dpdk) (start .lab none none)
      [.recvBurst [labClientFrame], .handleNext 0 none]).tx.items.length := by
    decide +kernel
  obtain ⟨m, hm⟩ := List.exists_mem_of_length_pos hlen
  exact ⟨m, hm, egress Rte.dpdk .lab none none _ m hm⟩

end Worker

end VioletGateway
