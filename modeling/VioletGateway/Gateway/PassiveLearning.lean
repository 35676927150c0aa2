import VioletGateway.Gateway.RoundTrip
import VioletGateway.Session.Capacity

/-!
# Which address a handled frame reports

`VioletGW::handle` learns the sender of an IPv4 frame and then lets the forwarder rewrite the frame,
but takes the address it reports from the frame as rewritten. For a frame that is not rewritten the
sender is reported. For one that is, the address reported is the gateway's own or the VIP, if packets
happen to wait for it, and the sender never is: packets that wait for it are not released.
`reportsLearned_iff` says exactly in which states the report is right.
-/

set_option autoImplicit false

namespace VioletGateway

open Support

namespace VioletGW

variable (rte : Rte) (g : VioletGW)

/-- Packets wait for the address. -/
def Queued (ip : UInt32) : Prop := (g.arpPending.lookup ip).isSome = true

/-- The address is resolved. -/
def Resolves (ip : UInt32) : Prop := (g.neighbors.lookup ip).isSome = true

/-- The report is right: if packets wait for the sender of the frame and it is resolved afterwards, the
sender is reported, and nothing else is ever reported. -/
def ReportsLearned (now : UInt64) (f : Frame) : Prop :=
  (g.Queued f.ipv4Src ∧ ((g.handle rte now).run f).val.2.Resolves f.ipv4Src →
    ((g.handle rte now).run f).val.1.learnedIp = f.ipv4Src) ∧
  (((g.handle rte now).run f).val.1.learnedIp = 0 ∨
    (((g.handle rte now).run f).val.1.learnedIp = f.ipv4Src ∧ g.Queued f.ipv4Src ∧
      ((g.handle rte now).run f).val.2.Resolves f.ipv4Src))

/-! ## The condition, on the state before -/

/-- The flow has a session, or one can be made: an endpoint with an address is picked and a SNAT port
is left. -/
def CanServe (key : FlowKey) : Prop :=
  (∃ p, g.sessions.lookupForward key = some p) ∨
    ((∃ ep, (g.upstreams.pick key).1 = some ep ∧ ep.ip ≠ 0) ∧
      g.sessions.sessions.length ≠ g.sessions.pool.capacity)

/-- The frame is a client frame that gets forwarded. -/
def Forwards (f : Frame) : Prop := g.forwarder.ToVip rte f ∧ g.CanServe f.flowKey

/-- The frame is a reply for which there is a session. -/
def Returns (f : Frame) : Prop :=
  g.forwarder.ToGateway rte f ∧ ∃ p, g.sessions.lookupReverse f.flowKey = some p

/-- The sender is in the neighbor table or passive learning will put it there. -/
def Resolvable (f : Frame) : Prop := g.Resolves f.ipv4Src ∨ f.Learnable

/-- The report is right for a frame that has the source address `src` after the forwarder: if it is
the sender still, packets wait for it only if it is resolvable; otherwise nothing waits for `src`, and
nothing waits for a resolvable sender. -/
def SoundFor (f : Frame) (src : UInt32) : Prop :=
  (src = f.ipv4Src ∧ (g.Queued f.ipv4Src → g.Resolvable f)) ∨
    (src ≠ f.ipv4Src ∧ ¬g.Queued src ∧ ¬(g.Queued f.ipv4Src ∧ g.Resolvable f))

/-- The condition under which the report is right. -/
def ReportSound (f : Frame) : Prop :=
  (g.Forwards rte f → g.SoundFor f g.fcfg.gatewayIp) ∧
    (g.Returns rte f → g.SoundFor f g.fcfg.vip.ip) ∧
      (¬g.Forwards rte f → ¬g.Returns rte f → g.SoundFor f f.ipv4Src)

end VioletGW

/-! ## Lemmas -/

theorem NeighborTable.lookup_learn_isSome (N : NeighborTable) (ip : UInt32) (mac : EtherAddr)
    (now : UInt64) (ip' : UInt32) :
    ((N.learn ip mac now).lookup ip').isSome ↔ (N.lookup ip').isSome ∨ ip' = ip := by
  by_cases h : ip' = ip
  · subst h
    simp [N.lookup_learn_self ip' mac now]
  · rw [N.lookup_learn_ne mac now h]
    simp [h]

/-- After passive learning the sender is resolved exactly if it was resolvable. -/
theorem VioletGW.resolves_learnFrom (g : VioletGW) (f : Frame) (now : UInt64) :
    (g.learnFrom f now).Resolves f.ipv4Src ↔ g.Resolvable f := by
  rw [VioletGW.Resolves, VioletGW.Resolvable, VioletGW.learnFrom, NeighborTable.learnFrom]
  by_cases h : f.Learnable
  · have hsrc : f.ipv4Src = f.srcIp := if_pos h.1
    simp only [if_pos h, hsrc]
    rw [NeighborTable.lookup_learn_isSome]
    simp [h, VioletGW.Resolves]
  · simp [h, VioletGW.Resolves]

/-- A rewritten frame reports its new source address. -/
theorem ipv4Src_rewritten {σ : Type} {rte : Rte} {fw : Forwarder σ} {f : Frame}
    (h : fw.Parses rte f) (srcIp dstIp : UInt32) (srcPort dstPort : UInt16) (recompute : Bool)
    (hop : Option EtherAddr) :
    (fw.sendFrame hop (f.natted rte srcIp dstIp srcPort dstPort recompute)).ipv4Src = srcIp := by
  have hshape := Forwarder.sameShape_rewritten h srcIp dstIp srcPort dstPort recompute hop
  have hends := Forwarder.endpoints_rewritten h srcIp dstIp srcPort dstPort recompute hop
  have hmin : 14 + 20 + 8 ≤ f.dataLen.toNat := h.accepts.1.minLen
  refine Eq.trans (if_pos ⟨?_, ?_⟩) (congrArg (fun e => e.1.1) hends)
  · rw [hshape.dataLen]
    show 14 + 20 ≤ f.dataLen.toNat
    omega
  · rw [hshape.etherType]
    exact h.accepts.1.ether

namespace VioletGW

variable {rte : Rte} {g : VioletGW}

theorem ne_zero_of_queued (hzero : g.arpPending.lookup 0 = none) {ip : UInt32} (h : g.Queued ip) :
    ip ≠ 0 := by
  rintro rfl
  rw [Queued, hzero] at h
  cases h

theorem reported_of_queued (hzero : g.arpPending.lookup 0 = none) {f : Frame}
    (h : g.Queued f.ipv4Src) : g.reported f = f.ipv4Src :=
  if_pos ⟨ne_zero_of_queued hzero h, h⟩

theorem reported_of_not_queued {f : Frame} (h : ¬g.Queued f.ipv4Src) : g.reported f = 0 :=
  if_neg fun hc => h hc.2

/-- What the report amounts to, given that the sender is resolved afterwards if and only if `R`. -/
theorem report_iff (hzero : g.arpPending.lookup 0 = none) (f f' : Frame) (R : Prop) :
    ((g.Queued f.ipv4Src ∧ R → g.reported f' = f.ipv4Src) ∧
      (g.reported f' = 0 ∨ (g.reported f' = f.ipv4Src ∧ g.Queued f.ipv4Src ∧ R))) ↔
    ((f'.ipv4Src = f.ipv4Src ∧ (g.Queued f.ipv4Src → R)) ∨
      (f'.ipv4Src ≠ f.ipv4Src ∧ ¬g.Queued f'.ipv4Src ∧ ¬(g.Queued f.ipv4Src ∧ R))) := by
  -- either the forwarder left the address alone, or another one is read
  by_cases hsame : f'.ipv4Src = f.ipv4Src
  · by_cases hq : g.Queued f.ipv4Src
    · -- the sender is reported, which is right if it is resolved
      have hrep : g.reported f' = f.ipv4Src := by
        rw [← hsame] at hq ⊢
        exact reported_of_queued hzero hq
      have hne := ne_zero_of_queued hzero hq
      simp [hrep, hsame, hq, hne]
    · have hrep : g.reported f' = 0 := by
        rw [← hsame] at hq
        exact reported_of_not_queued hq
      simp [hrep, hsame, hq]
  · by_cases hq : g.Queued f'.ipv4Src
    · -- another address is reported, which is never right
      have hrep := reported_of_queued hzero hq
      have hne := ne_zero_of_queued hzero hq
      simp [hrep, hsame, hq, hne]
    · have hrep := reported_of_not_queued hq
      simp only [hrep, hsame, hq, true_or, and_true, false_and, false_or, ne_eq, not_false_eq_true,
        true_and]
      constructor
      · intro himp hqr
        exact ne_zero_of_queued hzero hqr.1 (himp hqr).symm
      · intro hnot hqr
        exact absurd hqr hnot

/-- The session part of a client frame fails exactly when the flow cannot be served. -/
theorem sessionFor_none_iff (h : g.sessions.Inv) (key : FlowKey) (now : UInt64) :
    (g.forwarder.sessionFor g.forwardState key now).1 = none ↔ ¬g.CanServe key := by
  have hinv : g.forwardState.sessions.Inv := h
  have hstep := g.forwarder.sessionFor_cases hinv key now
  generalize g.forwarder.sessionFor g.forwardState key now = r at hstep ⊢
  cases hstep with
  | @found p _ hkey _ =>
      have hserve : g.CanServe key := Or.inl ⟨p, hkey⟩
      simp [hserve]
  | refused hkey hpick _ =>
      refine ⟨fun _ => ?_, fun _ => rfl⟩
      rintro (⟨p, hp⟩ | ⟨⟨ep, hep, hip⟩, -⟩)
      · exact nomatch hp.symm.trans hkey
      · refine hip (hpick _ rfl ⟨ep.ip, ep.port⟩ ?_)
        exact Option.map_eq_some_iff.mpr ⟨ep, hep, rfl⟩
  | @created hkey picker hpicker up hpick hup _ =>
      obtain rfl := Option.some.inj hpicker
      obtain ⟨ep, hep, rfl⟩ := Option.map_eq_some_iff.mp hpick
      -- an endpoint was picked, so the only reason to fail is a full range
      apply (SessionTable.create_none_iff_full hinv key ep.ip ep.port now).trans
      constructor
      · rintro hfull (⟨p, hp⟩ | ⟨-, hroom⟩)
        · exact nomatch hp.symm.trans hkey
        · exact hroom hfull
      · intro hnot
        by_contra hroom
        exact hnot (Or.inr ⟨⟨ep, hep, hup⟩, hroom⟩)

/-- How the forwarder leaves the source address of a frame. -/
theorem ipv4Src_after {cfg : ServiceConfig} {w : Worker} (h : w.Inv cfg) {now : UInt64}
    {f f' : Frame} {o : HandleOutcome} {st : ForwardState UpstreamTable}
    (hstep : (w.gw.learnFrom f now).forwarder.HandleStep rte (w.gw.learnFrom f now).forwardState now
      f o st f') :
    (w.gw.Forwards rte f ∧ f'.ipv4Src = w.gw.fcfg.gatewayIp) ∨
      (w.gw.Returns rte f ∧ f'.ipv4Src = w.gw.fcfg.vip.ip) ∨
        (¬w.gw.Forwards rte f ∧ ¬w.gw.Returns rte f ∧ f'.ipv4Src = f.ipv4Src) := by
  have hserve := sessionFor_none_iff (g := w.gw.learnFrom f now) h.sessions f.flowKey now
  -- the VIP is tested before the gateway's own address
  have hdisjoint : w.gw.forwarder.ToVip rte f → ¬w.gw.forwarder.ToGateway rte f :=
    fun hvip hgw => hgw.2.1 hvip.2
  cases hstep with
  | ignored hvip hgw => exact Or.inr (Or.inr ⟨fun hf => hvip hf.1, fun hr => hgw hr.1, rfl⟩)
  | refused hvip hsess =>
      refine Or.inr (Or.inr ⟨fun hf => hserve.mp hsess hf.2, ?_, rfl⟩)
      exact fun hr => hdisjoint hvip hr.1
  | @forward hvip p s hsess hs hkey =>
      refine Or.inl ⟨⟨hvip, ?_⟩, ipv4Src_rewritten hvip.1 _ _ _ _ _ _⟩
      by_contra hnot
      exact nomatch hsess.symm.trans (hserve.mpr hnot)
  | unknown hgw hsess =>
      refine Or.inr (Or.inr ⟨fun hf => hdisjoint hf.1 hgw, ?_, rfl⟩)
      rintro ⟨-, p, hp⟩
      exact nomatch hp.symm.trans hsess
  | @reverse hgw p s hsess hs =>
      refine Or.inr (Or.inl ⟨⟨hgw, p, hsess⟩, ?_⟩)
      have hvip : s.vipIp = w.gw.fcfg.vip.ip := by
        rw [h.vip]
        exact congrArg Prod.fst (Worker.vip_of_own h hs)
      rw [← hvip]
      exact ipv4Src_rewritten hgw.1 _ _ _ _ _ _

end VioletGW

/-! ## The report -/

/-- In every reachable state, the report for an IPv4 frame is right exactly under the condition
`ReportSound` on the state before. -/
theorem reportsLearned_iff (rte : Rte) (cfg : ServiceConfig) {w : Worker}
    (hw : Worker.Reachable rte cfg w) (now : UInt64) {f : Frame} (hf : f.HasType etherTypeIpv4) :
    w.gw.ReportsLearned rte now f ↔ w.gw.ReportSound rte f := by
  have h := hw.inv
  have hstep := w.gw.handle_cases rte h.sessions now f
  rw [VioletGW.ReportsLearned]
  generalize (w.gw.handle rte now).run f = out at hstep ⊢
  obtain ⟨⟨o, g⟩, f', log⟩ := out
  dsimp only at hstep ⊢
  cases hstep with
  | other hnot => exact absurd hf hnot
  | arp hnot _ => exact absurd hf hnot
  | ipv4 _ hfwd =>
      have hres := w.gw.resolves_learnFrom f now
      have hiff := VioletGW.report_iff h.noZero f f' (w.gw.Resolvable f)
      -- `Resolves` in the report is about the state after learning
      rw [← hres] at hiff
      apply hiff.trans
      rw [hres]
      have hdisjoint : w.gw.Forwards rte f → ¬w.gw.Returns rte f :=
        fun hforwards hreturns => hreturns.1.2.1 hforwards.1.2
      rcases VioletGW.ipv4Src_after h hfwd with ⟨hcase, hsrc⟩ | ⟨hcase, hsrc⟩ | ⟨hcase, hcase', hsrc⟩
      · rw [hsrc]
        exact ⟨fun hs => ⟨fun _ => hs, fun hr => absurd hr (hdisjoint hcase), fun hn => absurd hcase hn⟩,
          fun hs => hs.1 hcase⟩
      · rw [hsrc]
        exact ⟨fun hs => ⟨fun hn => absurd hcase (hdisjoint hn), fun _ => hs, fun _ hn => absurd hcase hn⟩,
          fun hs => hs.2.1 hcase⟩
      · rw [hsrc]
        exact ⟨fun hs => ⟨fun hn => absurd hn hcase, fun hn => absurd hn hcase', fun _ _ => hs⟩,
          fun hs => hs.2.2 hcase hcase'⟩

/-- The lab gateway after the control plane has replaced the upstream by an unresolved one and a
client frame has been queued for it. -/
def labWaiting : Worker := run (Worker.step Rte.dpdk) (.start .lab none none)
  [.pollControl (some ⟨.mod, [⟨Config.ipv4From ![10, 0, 0, 2], 53⟩]⟩),
    .recvBurst [Worker.labClientFrame], .handleNext 0 none, .finishBurst []]

theorem labWaiting_reachable : Worker.Reachable Rte.dpdk .lab labWaiting := ⟨none, none, _, rfl⟩

/-- The new upstream sends to a port that no session has. -/
def labStrayFrame : Frame := .udp [10, 0, 0, 2] [192, 168, 1, 10] 53 10001

/-- The forwarder leaves the stray frame alone, so the report is right: its sender, for which a packet
waits. -/
theorem reportsLearned_iff_lab :
    labWaiting.gw.ReportSound Rte.dpdk labStrayFrame ∧
      labWaiting.gw.ReportsLearned Rte.dpdk 1 labStrayFrame ∧
      labWaiting.gw.Queued (Config.ipv4From ![10, 0, 0, 2]) ∧
      ((labWaiting.gw.handle Rte.dpdk 1).run labStrayFrame).val.1.learnedIp =
        Config.ipv4From ![10, 0, 0, 2] := by
  have hvip : ¬labWaiting.gw.Forwards Rte.dpdk labStrayFrame := by
    intro hforwards
    exact absurd hforwards.1.2.1 (by decide +kernel)
  have hunknown : labWaiting.gw.sessions.lookupReverse labStrayFrame.flowKey = none := by
    decide +kernel
  have hreturns : ¬labWaiting.gw.Returns Rte.dpdk labStrayFrame := by
    rintro ⟨-, p, hp⟩
    exact nomatch hp.symm.trans hunknown
  have hlearnable : labStrayFrame.Learnable := by decide +kernel
  have hsound : labWaiting.gw.ReportSound Rte.dpdk labStrayFrame :=
    ⟨fun hf => absurd hf hvip, fun hr => absurd hr hreturns,
      fun _ _ => .inl ⟨rfl, fun _ => .inr hlearnable⟩⟩
  refine ⟨hsound, ?_, ?_, ?_⟩
  · exact (reportsLearned_iff Rte.dpdk .lab labWaiting_reachable 1
      ⟨by decide +kernel, by decide +kernel⟩).mpr hsound
  · rw [VioletGW.Queued]
    decide +kernel
  · decide +kernel

/-- The new upstream answers on the session of the client. -/
def labUpstreamFrame : Frame := .udp [10, 0, 0, 2] [192, 168, 1, 10] 53 10000

/-- Packets wait for the sender of the frame and it is resolved by the frame, but nothing is
reported. -/
theorem labUpstreamFrame_not_reported :
    Worker.Reachable Rte.dpdk .lab labWaiting ∧ labUpstreamFrame.HasType etherTypeIpv4 ∧
      ¬labWaiting.gw.ReportsLearned Rte.dpdk 1 labUpstreamFrame := by
  refine ⟨labWaiting_reachable, ⟨by decide +kernel, by decide +kernel⟩, ?_⟩
  rintro ⟨hreport, -⟩
  have hqueued : labWaiting.gw.Queued labUpstreamFrame.ipv4Src := by
    rw [VioletGW.Queued]
    decide +kernel
  have hresolved : ((labWaiting.gw.handle Rte.dpdk 1).run labUpstreamFrame).val.2.Resolves
      labUpstreamFrame.ipv4Src := by
    rw [VioletGW.Resolves]
    decide +kernel
  exact absurd (hreport ⟨hqueued, hresolved⟩) (by decide +kernel)

end VioletGateway
