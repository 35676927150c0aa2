import VioletGateway.Gateway.Invariant

/-!
# NAT round trip and flow stickiness

A client frame that the gateway accepts is rewritten for the session of its flow, and the session is
found again by the reply's key (`forward_of_toVip`, `reverse_of_toGateway`). Sessions do not change
while they live, so the two directions stay inverse to each other over any run in which the session
does not expire (`nat_round_trip`), and every further frame of the flow is rewritten alike
(`flow_sticky`).
-/

set_option autoImplicit false

namespace VioletGateway

open Support

/-- The frame is a reply to session `s`: it comes from the session's upstream and is addressed to the
session's SNAT port. -/
def Session.MatchesReply (s : Session) (r : Frame) : Prop :=
  r.srcIp = s.upstreamIp ∧ r.srcPort = s.upstreamPort ∧ r.dstPort = s.snatPort

/-- The forwarder of the gateway on the frame `f`. -/
def VioletGW.forwardRun (rte : Rte) (g : VioletGW) (now : UInt64) (f : Frame) :=
  (g.forwarder.handle rte g.forwardState now).run f

namespace Forwarder

variable {σ : Type} {rte : Rte} {fw : Forwarder σ}

theorem Parses.hasType {f : Frame} (h : fw.Parses rte f) : f.HasType etherTypeIpv4 := by
  refine ⟨?_, h.accepts.1.ether⟩
  have hmin : 14 + 20 + 8 ≤ f.dataLen.toNat := h.accepts.1.minLen
  show 14 ≤ f.dataLen.toNat
  omega

theorem sameShape_sendFrame (fw : Forwarder σ) {f : Frame} (hihl : kMinIpHdrLen ≤ f.ihl)
    (hop : Option EtherAddr) : f.SameShape (fw.sendFrame hop f) := by
  cases hop with
  | none => exact .refl f
  | some mac => exact Frame.sameShape_withL2 hihl fw.cfg.gatewayMac mac

/-- The L2 part does not touch the endpoints. -/
theorem endpoints_sendFrame (fw : Forwarder σ) {f : Frame} (hihl : kMinIpHdrLen ≤ f.ihl)
    (hop : Option EtherAddr) : (fw.sendFrame hop f).endpoints = f.endpoints := by
  cases hop with
  | none => rfl
  | some mac => exact Frame.endpoints_withL2 hihl fw.cfg.gatewayMac mac

section Rewritten

variable {f : Frame} (h : fw.Parses rte f) (srcIp dstIp : UInt32) (srcPort dstPort : UInt16)
  (recompute : Bool) (hop : Option EtherAddr)

include h

/-- A rewritten frame is parsed as the frame was. -/
theorem sameShape_rewritten :
    f.SameShape (fw.sendFrame hop (f.natted rte srcIp dstIp srcPort dstPort recompute)) := by
  have hshape := Frame.sameShape_natted h.ihl_ge rte srcIp dstIp srcPort dstPort recompute
  exact hshape.trans (fw.sameShape_sendFrame (hshape.ihl.symm ▸ h.ihl_ge) hop)

/-- A rewritten frame has the new endpoints. -/
theorem endpoints_rewritten :
    (fw.sendFrame hop (f.natted rte srcIp dstIp srcPort dstPort recompute)).endpoints =
      ((srcIp, srcPort), (dstIp, dstPort)) := by
  have hshape := Frame.sameShape_natted h.ihl_ge rte srcIp dstIp srcPort dstPort recompute
  rw [fw.endpoints_sendFrame (hshape.ihl.symm ▸ h.ihl_ge) hop]
  exact Frame.endpoints_natted h.ihl_ge rte srcIp dstIp srcPort dstPort recompute

end Rewritten

end Forwarder

namespace Worker

variable {rte : Rte} {cfg : ServiceConfig} {w : Worker}

/-! ## The reverse direction -/

/-- A reply is found under its flow key exactly when it matches the session. -/
theorem matchesReply_iff (h : w.Inv cfg) {p : SessionPtr} {s : Session}
    (hs : w.gw.sessions.heap p = some s) {r : Frame} (hdst : r.dstIp = cfg.gatewayIp) :
    w.gw.sessions.lookupReverse r.flowKey = some p ↔ s.MatchesReply r := by
  have hmade := h.sessions.made p s hs
  have hproto := (h.own p s hs).2.2.1
  -- the reverse key is determined by the other fields of the session
  have hkey : s.reverseKey = ⟨s.upstreamIp, cfg.gatewayIp, s.upstreamPort, s.snatPort, ipprotoUdp⟩ := by
    rw [hmade, ← hproto, ← h.tableIp]
    rfl
  rw [SessionTable.lookupReverse, h.sessions.reverse_iff]
  constructor
  · rintro ⟨s', hs', hk⟩
    obtain rfl := Option.some.inj (hs.symm.trans hs')
    rw [hkey] at hk
    injection hk with h₁ _ h₃ h₄ _
    exact ⟨h₁.symm, h₃.symm, h₄.symm⟩
  · rintro ⟨h₁, h₂, h₃⟩
    refine ⟨s, hs, ?_⟩
    rw [hkey, Frame.flowKey, h₁, h₂, h₃, hdst]

/-- No two sessions match the same reply. -/
theorem matchesReply_unique (h : w.Inv cfg) {p p' : SessionPtr} {s s' : Session}
    (hs : w.gw.sessions.heap p = some s) (hs' : w.gw.sessions.heap p' = some s') {r : Frame}
    (hdst : r.dstIp = cfg.gatewayIp) (hmatch : s.MatchesReply r) (hmatch' : s'.MatchesReply r) :
    p = p' := by
  have hp := (matchesReply_iff h hs hdst).mpr hmatch
  have hp' := (matchesReply_iff h hs' hdst).mpr hmatch'
  exact Option.some.inj (hp.symm.trans hp')

theorem vip_of_own (h : w.Inv cfg) {p : SessionPtr} {s : Session}
    (hs : w.gw.sessions.heap p = some s) : (s.vipIp, s.vipPort) = (cfg.vip.ip, cfg.vip.port) := by
  have hmade := h.sessions.made p s hs
  obtain ⟨hip, hport, -, -⟩ := h.own p s hs
  rw [hmade, ← hip, ← hport]
  rfl

theorem client_of_made (h : w.Inv cfg) {p : SessionPtr} {s : Session}
    (hs : w.gw.sessions.heap p = some s) :
    (s.clientIp, s.clientPort) = (s.forwardKey.srcIp, s.forwardKey.srcPort) := by
  have hmade := h.sessions.made p s hs
  rw [hmade]
  rfl

/-- What the forwarder does with a frame for the gateway's own address. -/
theorem reverse_of_toGateway (h : w.Inv cfg) (hne : cfg.gatewayIp ≠ cfg.vip.ip) {r : Frame}
    (hparse : w.gw.forwarder.Parses rte r) (hdst : r.dstIp = cfg.gatewayIp) (now : UInt64) :
    ((w.gw.forwardRun rte now r).val.1.result ≠ .drop ↔
      ∃ p s, w.gw.sessions.heap p = some s ∧ s.MatchesReply r) ∧
    ∀ p s, w.gw.sessions.heap p = some s → s.MatchesReply r →
      (w.gw.forwardRun rte now r).mem.endpoints =
        ((cfg.vip.ip, cfg.vip.port), (s.clientIp, s.clientPort)) := by
  -- the VIP is tested first, but the two addresses differ
  have hnotVip : ¬w.gw.forwarder.ToVip rte r := by
    rintro ⟨-, hip, -⟩
    have hvip : w.gw.forwarder.cfg.vip.ip = cfg.vip.ip := congrArg VipEndpoint.ip h.vip
    exact hne (hdst.symm.trans (hip.trans hvip))
  have hgw : w.gw.forwarder.ToGateway rte r :=
    ⟨hparse, fun hvip => hnotVip ⟨hparse, hvip⟩, hdst.trans h.gatewayIp.symm⟩
  have hinv : w.gw.forwardState.sessions.Inv := h.sessions
  have hstep := w.gw.forwarder.handle_cases rte hinv now r
  change w.gw.forwarder.HandleStep rte w.gw.forwardState now r
    (w.gw.forwardRun rte now r).val.1 (w.gw.forwardRun rte now r).val.2
    (w.gw.forwardRun rte now r).mem at hstep
  generalize w.gw.forwardRun rte now r = out at hstep ⊢
  obtain ⟨⟨o, st⟩, f', log⟩ := out
  dsimp only at hstep ⊢
  cases hstep with
  | ignored _ hnot => exact absurd hgw hnot
  | refused hvip _ => exact absurd hvip hnotVip
  | forward hvip _ _ _ => exact absurd hvip hnotVip
  | unknown _ hnone =>
      -- a matching session would have been found under the key of the reply
      have hno : ∀ p s, w.gw.sessions.heap p = some s → ¬s.MatchesReply r := by
        intro p s hs hmatch
        have hfound := (matchesReply_iff h hs hdst).mpr hmatch
        exact nomatch hfound.symm.trans hnone
      refine ⟨⟨fun hdrop => absurd rfl hdrop, ?_⟩, ?_⟩
      · rintro ⟨p, s, hs, hmatch⟩
        exact absurd hmatch (hno p s hs)
      · intro p s hs hmatch
        exact absurd hmatch (hno p s hs)
  | @reverse _ p s hfound hs =>
      have hmatch := (matchesReply_iff h hs hdst).mp hfound
      refine ⟨⟨fun _ => ⟨p, s, hs, hmatch⟩, fun _ => ?_⟩, ?_⟩
      · exact Forwarder.sendOutcome_ne_drop _ _ nofun
      · intro p' s' hs' hmatch'
        obtain rfl := matchesReply_unique h hs hs' hdst hmatch hmatch'
        obtain rfl := Option.some.inj (hs.symm.trans hs')
        rw [Forwarder.reverseNatted, Forwarder.endpoints_rewritten hparse, vip_of_own h hs]

/-! ## The forward direction -/

/-- The session part of an accepted client frame: what it returns is filed under the flow's key. -/
theorem sessionFor_found {g : VioletGW} (h : g.sessions.Inv) {key : FlowKey} {now : UInt64}
    {p : SessionPtr} (hp : (g.forwarder.sessionFor g.forwardState key now).1 = some p) :
    (g.forwarder.sessionFor g.forwardState key now).2.sessions.lookupForward key = some p := by
  have hinv : g.forwardState.sessions.Inv := h
  obtain ⟨s, hs, hkey⟩ := g.forwarder.sessionFor_heap hinv hp
  have hinv' := (Forwarder.sessionFor_evolves g.forwarder hinv key now).inv
  exact (hinv'.forward_iff key p).mpr ⟨s, hs, hkey⟩

/-- A frame for the VIP that the gateway does not drop is rewritten for the session of its flow. -/
theorem forward_of_toVip (h : w.Inv cfg) {f : Frame} (hvip : w.gw.forwarder.ToVip rte f)
    {now : UInt64} (haccept : ((w.gw.handle rte now).run f).val.1.result ≠ .drop) :
    ∃ p s, ((w.gw.handle rte now).run f).val.2.sessions = (w.gw.forwarder.sessionFor
        (w.gw.learnFrom f now).forwardState f.flowKey now).2.sessions ∧
      (w.gw.forwarder.sessionFor (w.gw.learnFrom f now).forwardState f.flowKey now).1 = some p ∧
      ((w.gw.handle rte now).run f).val.2.sessions.heap p = some s ∧ s.forwardKey = f.flowKey ∧
      ((w.gw.handle rte now).run f).mem.endpoints =
        ((cfg.gatewayIp, s.snatPort), (s.upstreamIp, s.upstreamPort)) := by
  have hstep := w.gw.handle_cases rte h.sessions now f
  generalize (w.gw.handle rte now).run f = out at hstep haccept ⊢
  obtain ⟨⟨o, g⟩, f', log⟩ := out
  dsimp only at hstep haccept ⊢
  cases hstep with
  | other hnot => exact absurd hvip.1.hasType hnot
  | arp hnot _ => exact absurd hvip.1.hasType hnot
  | ipv4 _ hfwd =>
      cases hfwd with
      | ignored hnot _ => exact absurd hvip hnot
      | refused => exact absurd rfl haccept
      | @forward _ p s hsess hs hkey =>
          refine ⟨p, s, rfl, hsess, hs, hkey, ?_⟩
          rw [← h.gatewayIp]
          exact Forwarder.endpoints_rewritten hvip.1 _ _ _ _ _ _
      | unknown => exact absurd rfl haccept
      | reverse hgw _ _ => exact absurd hvip.2 hgw.2.1

/-- A session that is still there after a run is the session that was there before it. -/
theorem session_after_run (h : w.Inv cfg) (rte : Rte) {p : SessionPtr} {s : Session}
    (hs : w.gw.sessions.heap p = some s) {es : List Event}
    (hlive : p ∈ (run (step rte) w es).gw.sessions.sessions) :
    ∃ s', (run (step rte) w es).gw.sessions.heap p = some s' ∧ s.SameButTime s' := by
  have hcont := run_continues rte h es
  have hinv := run_invariant (step_inv rte) h es
  obtain ⟨s', hs'⟩ := (hinv.sessions.live_iff p).mp hlive
  -- an address below `nextPtr` is not used for another session
  have hlt := h.sessions.ptr_lt p ((h.sessions.live_iff p).mpr ⟨s, hs⟩)
  obtain ⟨s₀, hs₀, hsame⟩ := hcont.stable p s' hlt hs'
  obtain rfl := Option.some.inj (hs.symm.trans hs₀)
  exact ⟨s', hs', hsame⟩

/-- The state after the next received frame was handled. -/
theorem step_handleNext_sessions (rte : Rte) {m : Mbuf} {rest : List Mbuf} (hrx : w.rx = m :: rest)
    (now : UInt64) (buf : Option Frame) :
    (w.step rte (.handleNext now buf)).gw.sessions =
      ((w.gw.handle rte now).run m.frame).val.2.sessions := by
  simp only [step, hrx]
  exact (handleRx_core rte { w with rx := rest } m now buf Config.ioRxBurst).sessions

/-! ## Round trip -/

/-- The reply to a client frame `f` that was rewritten for the session `s` is rewritten to the
endpoints of `f`, swapped, and no other session matches it. -/
theorem reply_of_session (h : w.Inv cfg) (hne : cfg.gatewayIp ≠ cfg.vip.ip) {p : SessionPtr}
    {s : Session} (hs : w.gw.sessions.heap p = some s) {f : Frame}
    (hip : f.dstIp = cfg.vip.ip) (hport : f.dstPort = cfg.vip.port)
    (hkey : s.forwardKey = f.flowKey) {r : Frame} (hparse : w.gw.forwarder.Parses rte r)
    (hends : r.endpoints = ((s.upstreamIp, s.upstreamPort), (cfg.gatewayIp, s.snatPort)))
    (now : UInt64) :
    (w.gw.forwardRun rte now r).val.1.result ≠ .drop ∧
      (w.gw.forwardRun rte now r).mem.endpoints = f.endpoints.swap ∧
      ∀ ps ∈ w.gw.sessions.live, ps.2.MatchesReply r → ps.1 = p := by
  have hdst : r.dstIp = cfg.gatewayIp := congrArg (fun e => e.2.1) hends
  have hmatch : s.MatchesReply r :=
    ⟨congrArg (fun e => e.1.1) hends, congrArg (fun e => e.1.2) hends,
      congrArg (fun e => e.2.2) hends⟩
  obtain ⟨hiff, hend⟩ := reverse_of_toGateway h hne hparse hdst now
  refine ⟨hiff.mpr ⟨p, s, hs, hmatch⟩, ?_, ?_⟩
  · have hclient : (s.clientIp, s.clientPort) = (f.srcIp, f.srcPort) := by
      rw [client_of_made h hs, hkey]
      rfl
    rw [hend p s hs hmatch, hclient, Frame.endpoints, hip, hport]
    rfl
  · rintro ⟨q, u⟩ hqu hmatch'
    have hu := (SessionTable.mem_live h.sessions.coherent q u).mp hqu
    exact matchesReply_unique h hu hs hdst hmatch' hmatch

/-- In every reachable state the forwarder accepts a reply exactly when one live session matches it,
and rewrites it to come from the VIP and to go to the client of that session. The reply to a client
frame that was accepted, sent after any run in which the session of the frame stays alive, is
rewritten to the endpoints of that frame, swapped, and matches no other session. -/
theorem nat_round_trip (rte : Rte) (cfg : ServiceConfig) (hne : cfg.gatewayIp ≠ cfg.vip.ip)
    {w : Worker} (hw : Reachable rte cfg w) :
    (∀ (r : Frame) (now : UInt64), w.gw.forwarder.Parses rte r → r.dstIp = cfg.gatewayIp →
      ((w.gw.forwardRun rte now r).val.1.result ≠ .drop ↔
        ∃! ps, ps ∈ w.gw.sessions.live ∧ ps.2.MatchesReply r) ∧
      ∀ ps ∈ w.gw.sessions.live, ps.2.MatchesReply r →
        (w.gw.forwardRun rte now r).mem.endpoints =
          ((cfg.vip.ip, cfg.vip.port), (ps.2.clientIp, ps.2.clientPort))) ∧
    ∀ (m : Mbuf) (rest : List Mbuf) (now : UInt64) (buf : Option Frame), w.rx = m :: rest →
      w.gw.forwarder.ToVip rte m.frame →
      ((w.gw.handle rte now).run m.frame).val.1.result ≠ .drop →
      ∃ p, (w.step rte (.handleNext now buf)).gw.sessions.lookupForward m.frame.flowKey = some p ∧
        ∀ (es : List Event) (w' : Worker), w' = run (step rte) (w.step rte (.handleNext now buf)) es →
          p ∈ w'.gw.sessions.sessions →
          ∀ (r : Frame) (now' : UInt64), w'.gw.forwarder.Parses rte r →
            r.endpoints = ((w.gw.handle rte now).run m.frame).mem.endpoints.swap →
            (w'.gw.forwardRun rte now' r).val.1.result ≠ .drop ∧
            (w'.gw.forwardRun rte now' r).mem.endpoints = m.frame.endpoints.swap ∧
            ∀ ps ∈ w'.gw.sessions.live, ps.2.MatchesReply r → ps.1 = p := by
  have h := hw.inv
  refine ⟨?_, ?_⟩
  · intro r now hparse hdst
    obtain ⟨hiff, hend⟩ := reverse_of_toGateway h hne hparse hdst now
    refine ⟨hiff.trans ?_, ?_⟩
    · constructor
      · rintro ⟨p, s, hs, hmatch⟩
        refine ⟨(p, s), ⟨(SessionTable.mem_live h.sessions.coherent p s).mpr hs, hmatch⟩, ?_⟩
        rintro ⟨p', s'⟩ ⟨hps', hmatch'⟩
        have hs' := (SessionTable.mem_live h.sessions.coherent p' s').mp hps'
        obtain rfl := matchesReply_unique h hs hs' hdst hmatch hmatch'
        rw [Option.some.inj (hs.symm.trans hs')]
      · rintro ⟨⟨p, s⟩, ⟨hps, hmatch⟩, -⟩
        exact ⟨p, s, (SessionTable.mem_live h.sessions.coherent p s).mp hps, hmatch⟩
    · rintro ⟨p, s⟩ hps hmatch
      exact hend p s ((SessionTable.mem_live h.sessions.coherent p s).mp hps) hmatch
  · intro m rest now buf hrx hvip haccept
    obtain ⟨p, s, hsess, hp, hs, hkey, hsent⟩ := forward_of_toVip h hvip haccept
    have hsessions := step_handleNext_sessions rte hrx now buf
    have h₁ := step_inv rte w (.handleNext now buf) h
    refine ⟨p, ?_, ?_⟩
    · rw [hsessions, hsess]
      exact sessionFor_found (g := w.gw.learnFrom m.frame now) h.sessions hp
    · rintro es w' rfl hlive r now' hparse hends
      have hs₁ : (w.step rte (.handleNext now buf)).gw.sessions.heap p = some s := by
        rw [hsessions]
        exact hs
      -- the session is the same as when the frame was sent, but for its activity time
      obtain ⟨s', hs', hsame⟩ := session_after_run h₁ rte hs₁ hlive
      have h₂ := run_invariant (step_inv rte) h₁ es
      rw [hsent] at hends
      have hip : m.frame.dstIp = cfg.vip.ip := by
        rw [← h.vip]
        exact hvip.2.1
      have hport : m.frame.dstPort = cfg.vip.port := by
        rw [← h.vip]
        exact hvip.2.2
      refine reply_of_session h₂ hne hs' hip hport ?_ hparse ?_ now'
      · rw [hsame]
        exact hkey
      · rw [hends, hsame]
        rfl

/-- A client frame for the VIP of the lab configuration. -/
def labClientFrame : Frame := .udp [10, 0, 0, 9] [192, 168, 1, 100] 4000 53

/-- The reply to `labClientFrame` as the upstream sends it. -/
def labReplyFrame : Frame := .udp [10, 0, 0, 1] [192, 168, 1, 10] 53 10000

/-- The lab gateway when it has received `labClientFrame`. -/
def labReceived : Worker := (start .lab none none).recvBurst [labClientFrame]

theorem labClientFrame_toVip : labReceived.gw.forwarder.ToVip Rte.dpdk labClientFrame :=
  ⟨by unfold Forwarder.Parses; decide +kernel, by decide +kernel, by decide +kernel⟩

theorem labReceived_reachable : Reachable Rte.dpdk .lab labReceived :=
  ⟨none, none, [.recvBurst [labClientFrame]], rfl⟩

/-- The reply to the lab client comes back with the client's endpoints. -/
theorem nat_round_trip_lab :
    ((labReceived.step Rte.dpdk (.handleNext 0 none)).gw.forwardRun Rte.dpdk 5
      labReplyFrame).mem.endpoints = labClientFrame.endpoints.swap := by
  obtain ⟨p, hp, hreply⟩ := (nat_round_trip Rte.dpdk .lab (by decide) labReceived_reachable).2
    ⟨0, labClientFrame⟩ [] 0 none rfl labClientFrame_toVip (by decide +kernel)
  have hzero : p = 0 := by
    have hfound : (labReceived.step Rte.dpdk (.handleNext 0 none)).gw.sessions.lookupForward
        labClientFrame.flowKey = some 0 := by decide +kernel
    exact Option.some.inj (hp.symm.trans hfound)
  subst hzero
  exact (hreply [] _ rfl (by decide +kernel) labReplyFrame 5
    (by unfold Forwarder.Parses; decide +kernel) (by decide +kernel)).2.1

/-! ## Stickiness -/

theorem sessionFor_of_found {g : VioletGW} {key : FlowKey} {p : SessionPtr}
    (hp : g.sessions.lookupForward key = some p) (now : UInt64) :
    g.forwarder.sessionFor g.forwardState key now =
      (some p, { g.forwardState with sessions := g.sessions.touch (some p) now }) := by
  have hp' : g.forwardState.sessions.lookupForward key = some p := hp
  simp only [Forwarder.sessionFor, hp']
  rfl

/-- A frame of a flow that has a session is accepted and rewritten for that session. -/
theorem forward_of_session (h : w.Inv cfg) {f : Frame} (hvip : w.gw.forwarder.ToVip rte f)
    {p : SessionPtr} {s : Session} (hs : w.gw.sessions.heap p = some s)
    (hkey : s.forwardKey = f.flowKey) (now : UInt64) :
    ((w.gw.handle rte now).run f).val.1.result ≠ .drop ∧
      ((w.gw.handle rte now).run f).mem.endpoints =
        ((cfg.gatewayIp, s.snatPort), (s.upstreamIp, s.upstreamPort)) := by
  have hfound : w.gw.sessions.lookupForward f.flowKey = some p :=
    (h.sessions.forward_iff _ p).mpr ⟨s, hs, hkey⟩
  have hsess := sessionFor_of_found (g := w.gw.learnFrom f now) hfound now
  -- the session part cannot fail, since the flow has a session
  have haccept : ((w.gw.handle rte now).run f).val.1.result ≠ .drop := by
    have hstep := w.gw.handle_cases rte h.sessions now f
    generalize (w.gw.handle rte now).run f = out at hstep ⊢
    obtain ⟨⟨o, g⟩, f', log⟩ := out
    dsimp only at hstep ⊢
    cases hstep with
    | other hnot => exact absurd hvip.1.hasType hnot
    | arp hnot _ => exact absurd hvip.1.hasType hnot
    | ipv4 _ hfwd =>
        cases hfwd with
        | ignored hnot _ => exact absurd hvip hnot
        | refused _ hnone =>
            rw [hsess] at hnone
            cases hnone
        | forward => exact Forwarder.sendOutcome_ne_drop _ _ nofun
        | unknown hgw _ => exact absurd hvip.2 hgw.2.1
        | reverse hgw _ _ => exact absurd hvip.2 hgw.2.1
  refine ⟨haccept, ?_⟩
  obtain ⟨q, u, hsessions, hq, hu, -, hends⟩ := forward_of_toVip h hvip haccept
  have hsess' : w.gw.forwarder.sessionFor (w.gw.learnFrom f now).forwardState f.flowKey now = _ :=
    hsess
  rw [hsess'] at hsessions hq
  obtain rfl := Option.some.inj hq
  rw [hsessions] at hu
  obtain rfl := Option.some.inj ((SessionTable.touch_heap_self hs now).symm.trans hu)
  exact hends

/-- The session of a new flow is made for an endpoint of the list installed at that moment. -/
theorem upstream_of_created {g : VioletGW} (h : g.sessions.Inv) {key : FlowKey} {now : UInt64}
    (hnew : g.sessions.lookupForward key = none) {p : SessionPtr} {s : Session}
    (hp : (g.forwarder.sessionFor g.forwardState key now).1 = some p)
    (hs : (g.forwarder.sessionFor g.forwardState key now).2.sessions.heap p = some s) :
    ∃ ep ∈ g.upstreams.nodes, ep.ip ≠ 0 ∧ s.upstreamIp = ep.ip ∧ s.upstreamPort = ep.port := by
  have hinv : g.forwardState.sessions.Inv := h
  have hstep := g.forwarder.sessionFor_cases hinv key now
  generalize g.forwarder.sessionFor g.forwardState key now = r at hstep hp hs
  cases hstep with
  | found hkey _ => exact nomatch hnew.symm.trans hkey
  | refused => cases hp
  | @created _ picker hpicker up hpick hup _ =>
      -- the picker is the one of `init_services`, on the list installed now
      obtain rfl := Option.some.inj hpicker
      obtain ⟨ep, hep, rfl⟩ := Option.map_eq_some_iff.mp hpick
      refine ⟨ep, UpstreamTable.mem_nodes_of_pick hep, hup, ?_⟩
      rcases SessionTable.create_heap hinv hs with hold | ⟨-, -, snat, rfl⟩
      · -- the new session's address was not in use before
        have hcreate := SessionTable.create_cases hinv key ep.ip ep.port now
        dsimp only at hp
        generalize g.forwardState.sessions.create key ep.ip ep.port now = c at hcreate hp
        cases hcreate with
        | exhausted => cases hp
        | created =>
            obtain rfl := Option.some.inj hp
            exact nomatch hinv.coherent.heap_nextPtr.symm.trans hold
      · exact ⟨rfl, rfl⟩

/-- A flow's session is made for one of the endpoints installed when its first frame is accepted, and
over any run in which the session stays alive every frame of the flow is accepted and rewritten to
the same endpoints as the first one. -/
theorem flow_sticky (rte : Rte) (cfg : ServiceConfig) {w : Worker} (hw : Reachable rte cfg w)
    {m : Mbuf} {rest : List Mbuf} (hrx : w.rx = m :: rest)
    (hvip : w.gw.forwarder.ToVip rte m.frame)
    (hnew : w.gw.sessions.lookupForward m.frame.flowKey = none) (now : UInt64) (buf : Option Frame)
    (haccept : ((w.gw.handle rte now).run m.frame).val.1.result ≠ .drop) :
    ∃ (p : SessionPtr) (snat : UInt16) (ep : UpstreamEndpoint),
      (w.step rte (.handleNext now buf)).gw.sessions.lookupForward m.frame.flowKey = some p ∧
      ep ∈ w.gw.upstreams.nodes ∧ ep.ip ≠ 0 ∧
      ((w.gw.handle rte now).run m.frame).mem.endpoints =
        ((cfg.gatewayIp, snat), (ep.ip, ep.port)) ∧
      ∀ (es : List Event) (w' : Worker), w' = run (step rte) (w.step rte (.handleNext now buf)) es →
        p ∈ w'.gw.sessions.sessions →
        ∀ (f : Frame) (now' : UInt64), w'.gw.forwarder.ToVip rte f →
          f.flowKey = m.frame.flowKey →
          ((w'.gw.handle rte now').run f).val.1.result ≠ .drop ∧
          ((w'.gw.handle rte now').run f).mem.endpoints =
            ((cfg.gatewayIp, snat), (ep.ip, ep.port)) := by
  have h := hw.inv
  obtain ⟨p, s, hsess, hp, hs, hkey, hsent⟩ := forward_of_toVip h hvip haccept
  have hsessions := step_handleNext_sessions rte hrx now buf
  have h₁ := step_inv rte w (.handleNext now buf) h
  have hs₀ := hs
  rw [hsess] at hs₀
  obtain ⟨ep, hep, hip, hupIp, hupPort⟩ :=
    upstream_of_created (g := w.gw.learnFrom m.frame now) h.sessions hnew hp hs₀
  refine ⟨p, s.snatPort, ep, ?_, hep, hip, ?_, ?_⟩
  · rw [hsessions, hsess]
    exact sessionFor_found (g := w.gw.learnFrom m.frame now) h.sessions hp
  · rw [hsent, hupIp, hupPort]
  · rintro es w' rfl hlive f now' hvip' hkey'
    have hs₁ : (w.step rte (.handleNext now buf)).gw.sessions.heap p = some s := by
      rw [hsessions]
      exact hs
    obtain ⟨s', hs', hsame⟩ := session_after_run h₁ rte hs₁ hlive
    have h₂ := run_invariant (step_inv rte) h₁ es
    have hkey₂ : s'.forwardKey = f.flowKey := by
      rw [hsame, hkey']
      exact hkey
    have hends := forward_of_session h₂ hvip' hs' hkey₂ now'
    rw [hsame] at hends
    rw [← hupIp, ← hupPort]
    exact hends

/-- The lab gateway after the first frame of the flow, when the control plane has replaced the upstream
and set another policy. -/
def labReplaced : Worker :=
  run (step Rte.dpdk) (labReceived.step Rte.dpdk (.handleNext 0 none))
    [.setUpstreams [⟨0x0200000a, 5353⟩], .setPolicy .rr]

/-- The second frame of the flow is accepted, and it still goes where the first one went. -/
theorem flow_sticky_lab :
    labReplaced.gw.upstreams.nodes = [⟨0x0200000a, 5353⟩] ∧
      ((labReplaced.gw.handle Rte.dpdk 7).run labClientFrame).val.1.result ≠ .drop ∧
      ((labReplaced.gw.handle Rte.dpdk 7).run labClientFrame).mem.endpoints =
        ((ServiceConfig.lab.gatewayIp, 10000), (ServiceConfig.lab.upstream0.ip, 53)) := by
  have haccept : ((labReceived.gw.handle Rte.dpdk 0).run labClientFrame).val.1.result ≠ .drop := by
    decide +kernel
  obtain ⟨p, snat, ep, hp, -, -, hfirst, hlater⟩ := flow_sticky Rte.dpdk .lab labReceived_reachable
    (m := ⟨0, labClientFrame⟩) rfl labClientFrame_toVip (by decide +kernel) 0 none haccept
  have hzero : p = 0 := by
    have hfound : (labReceived.step Rte.dpdk (.handleNext 0 none)).gw.sessions.lookupForward
        labClientFrame.flowKey = some 0 := by decide +kernel
    exact Option.some.inj (hp.symm.trans hfound)
  subst hzero
  have hsecond := hlater [.setUpstreams [⟨0x0200000a, 5353⟩], .setPolicy .rr] labReplaced rfl
    (by decide +kernel) labClientFrame 7 labClientFrame_toVip rfl
  refine ⟨by decide +kernel, hsecond.1, hsecond.2.trans (hfirst.symm.trans ?_)⟩
  decide +kernel

end Worker

end VioletGateway
