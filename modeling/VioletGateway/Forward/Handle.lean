import VioletGateway.Forward.Rewrite
import VioletGateway.Session.Invariant

/-!
# What the forwarder does with a frame

`HandleStep` lists everything `Forwarder::handle` can do with a frame, with the guards of each case:
the frame is not addressed to the gateway, a client frame is refused or rewritten towards its
upstream, a reply is unknown or rewritten towards its client. `handle_cases` says that the list is
complete; the results about the forwarder are derived from it.
-/

set_option autoImplicit false

namespace VioletGateway

open Support

/-! ## The parsed view -/

theorem view_of_verifyChecksums {rte : Rte} {v w : PacketView} {f : Frame}
    (h : ((verifyChecksums rte v).run f).val = .ok w) : w = v := by
  simp only [verifyChecksums, Traced.bind_val, Traced.ite_val, Traced.pure_val] at h
  split_ifs at h
  exact (Except.ok.inj h).symm

/-- Whatever the checksum setting, a successful parse returns the view of the frame. -/
theorem view_of_parseUdpIpv4 {rte : Rte} {verify : Bool} {f : Frame} {v : PacketView}
    (h : ((parseUdpIpv4 rte verify).run f).val = .ok v) : v = f.view := by
  rw [parseUdpIpv4_of_accepts rte verify (accepts_of_parseUdpIpv4 h)] at h
  cases verify with
  | true => exact view_of_verifyChecksums h
  | false => exact (Except.ok.inj h).symm

@[simp] theorem flowKeyFromView_val (f : Frame) :
    ((flowKeyFromView f.view).run f).val = f.flowKey := (rfl)

@[simp] theorem flowKeyFromView_mem (v : PacketView) (f : Frame) :
    ((flowKeyFromView v).run f).mem = f := (rfl)

namespace Forwarder

variable {σ : Type} (rte : Rte) (fw : Forwarder σ)

/-! ## Classification -/

/-- The parser accepts the frame under the checksum setting of the forwarder. -/
def Parses (f : Frame) : Prop :=
  ((parseUdpIpv4 rte fw.cfg.verifyChecksum).run f).val = .ok f.view

/-- The frame is a UDP/IPv4 frame for the VIP endpoint. -/
def ToVip (f : Frame) : Prop :=
  fw.Parses rte f ∧ f.dstIp = fw.cfg.vip.ip ∧ f.dstPort = fw.cfg.vip.port

/-- The frame is a UDP/IPv4 frame for the gateway's own address. -/
def ToGateway (f : Frame) : Prop :=
  fw.Parses rte f ∧ ¬(f.dstIp = fw.cfg.vip.ip ∧ f.dstPort = fw.cfg.vip.port) ∧
    f.dstIp = fw.cfg.gatewayIp

variable {rte fw}

theorem Parses.accepts {f : Frame} (h : fw.Parses rte f) : f.Accepts := accepts_of_parseUdpIpv4 h

theorem Parses.ihl_ge {f : Frame} (h : fw.Parses rte f) : kMinIpHdrLen ≤ f.ihl :=
  h.accepts.1.ihl_ge

variable (rte fw)

/-- Outcome of the L2 part, given the result of the next-hop lookup. -/
def sendOutcome (hop : Option EtherAddr) (nextHopIp : UInt32) (sent : HandleResult) :
    HandleOutcome :=
  match hop with
  | none => pendingFor nextHopIp
  | some _ => { result := sent }

theorem sendOutcome_ne_drop (hop : Option EtherAddr) (ip : UInt32) {sent : HandleResult}
    (h : sent ≠ .drop) : (sendOutcome hop ip sent).result ≠ .drop := by
  cases hop with
  | none => exact nofun
  | some mac => exact h

/-- Frame after the L2 part, given the result of the next-hop lookup. -/
def sendFrame (hop : Option EtherAddr) (f : Frame) : Frame :=
  match hop with
  | none => f
  | some dstMac => f.withL2 fw.cfg.gatewayMac dstMac

theorem sendVia_val (st : ForwardState σ) (v : PacketView) (ip : UInt32) (fallback : EtherAddr)
    (sent : HandleResult) (f : Frame) :
    ((fw.sendVia st v ip fallback sent).run f).val =
      sendOutcome (lookupNextHopMac st.neighbors ip fallback) ip sent := by
  simp only [sendVia, sendOutcome]
  cases lookupNextHopMac st.neighbors ip fallback <;> rfl

theorem sendVia_mem (st : ForwardState σ) {v : PacketView} (hv : v.eth = 0) (ip : UInt32)
    (fallback : EtherAddr) (sent : HandleResult) (f : Frame) :
    ((fw.sendVia st v ip fallback sent).run f).mem =
      fw.sendFrame (lookupNextHopMac st.neighbors ip fallback) f := by
  simp only [sendVia, sendFrame]
  cases lookupNextHopMac st.neighbors ip fallback with
  | none => rfl
  | some dstMac => exact Frame.setL2_mem hv fw.cfg.gatewayMac dstMac f

/-- The frame after the forward rewrite for session `s`. -/
def forwardNatted (s : Session) (f : Frame) : Frame :=
  f.natted rte fw.cfg.gatewayIp s.upstreamIp s.snatPort s.upstreamPort fw.cfg.recomputeUdpChecksum

/-- The frame after the reverse rewrite for session `s`. -/
def reverseNatted (s : Session) (f : Frame) : Frame :=
  f.natted rte s.vipIp s.clientIp s.vipPort s.clientPort fw.cfg.recomputeUdpChecksum

/-! ## The session part -/

/-- Everything that `sessionFor` can do. -/
inductive SessionStep (st : ForwardState σ) (key : FlowKey) (now : UInt64) :
    Option SessionPtr × ForwardState σ → Prop
  | found {p : SessionPtr} {s : Session} (hkey : st.sessions.lookupForward key = some p)
      (hs : st.sessions.heap p = some s) :
      SessionStep st key now (some p, { st with sessions := st.sessions.touch (some p) now })
  | refused (hkey : st.sessions.lookupForward key = none)
      (hpick : ∀ picker, fw.picker = some picker →
        ∀ up, (picker key st.pickerState).1 = some up → up.ip = 0) (ps : σ) :
      SessionStep st key now (none, { st with pickerState := ps })
  | created (hkey : st.sessions.lookupForward key = none) {picker : UpstreamPicker σ}
      (hpicker : fw.picker = some picker) {up : Upstream}
      (hpick : (picker key st.pickerState).1 = some up) (hup : up.ip ≠ 0) (ps : σ) :
      SessionStep st key now ((st.sessions.create key up.ip up.port now).1,
        { st with
          pickerState := ps
          sessions := (st.sessions.create key up.ip up.port now).2 })

theorem sessionFor_cases {st : ForwardState σ} (h : st.sessions.Inv) (key : FlowKey)
    (now : UInt64) : fw.SessionStep st key now (fw.sessionFor st key now) := by
  rw [sessionFor]
  cases hkey : st.sessions.lookupForward key with
  | some p =>
      obtain ⟨s, hs, -⟩ := (h.forward_iff key p).mp hkey
      exact .found hkey hs
  | none =>
      cases hpicker : fw.picker with
      | none =>
          refine .refused hkey ?_ st.pickerState
          intro picker hsome
          rw [hpicker] at hsome
          cases hsome
      | some picker =>
          cases hpick : (picker key st.pickerState).1 with
          | none =>
              simp only [hpick]
              refine .refused hkey ?_ _
              intro picker' hsome up hup
              obtain rfl := Option.some.inj (hpicker.symm.trans hsome)
              rw [hpick] at hup
              cases hup
          | some up =>
              -- an endpoint without an address is refused like no endpoint
              by_cases hzero : up.ip = 0
              · simp only [hpick, if_pos hzero]
                refine .refused hkey ?_ _
                intro picker' hsome up' hup
                obtain rfl := Option.some.inj (hpicker.symm.trans hsome)
                obtain rfl := Option.some.inj (hpick.symm.trans hup)
                exact hzero
              · simp only [hpick, if_neg hzero]
                exact .created hkey hpicker hpick hzero _

/-- The session that the session part returns is allocated and filed under the flow's key. -/
theorem sessionFor_heap {st : ForwardState σ} (h : st.sessions.Inv) {key : FlowKey} {now : UInt64}
    {p : SessionPtr} (hp : (fw.sessionFor st key now).1 = some p) :
    ∃ s, (fw.sessionFor st key now).2.sessions.heap p = some s ∧ s.forwardKey = key := by
  have hstep := fw.sessionFor_cases h key now
  generalize fw.sessionFor st key now = r at hstep hp ⊢
  cases hstep with
  | @found q s hkey hs =>
      obtain rfl := Option.some.inj hp
      obtain ⟨u, hu, hk⟩ := (h.forward_iff key q).mp hkey
      exact ⟨_, SessionTable.touch_heap_self hu now, hk⟩
  | refused => cases hp
  | @created hkey _ _ up _ _ _ =>
      have hcreate := SessionTable.create_cases h key up.ip up.port now
      dsimp only at hp ⊢
      generalize st.sessions.create key up.ip up.port now = c at hcreate hp ⊢
      cases hcreate with
      | exhausted => cases hp
      | created =>
          obtain rfl := Option.some.inj hp
          exact ⟨_, Function.update_self .., rfl⟩

/-! ## Inversion -/

/-- Everything that handling a frame can do: outcome, state afterwards, frame afterwards. -/
inductive HandleStep (st : ForwardState σ) (now : UInt64) (f : Frame) :
    HandleOutcome → ForwardState σ → Frame → Prop
  | ignored (hvip : ¬fw.ToVip rte f) (hgw : ¬fw.ToGateway rte f) : HandleStep st now f {} st f
  | refused (hvip : fw.ToVip rte f) (hsess : (fw.sessionFor st f.flowKey now).1 = none) :
      HandleStep st now f {} (fw.sessionFor st f.flowKey now).2 f
  | forward (hvip : fw.ToVip rte f) {p : SessionPtr} {s : Session}
      (hsess : (fw.sessionFor st f.flowKey now).1 = some p)
      (hs : (fw.sessionFor st f.flowKey now).2.sessions.heap p = some s)
      (hkey : s.forwardKey = f.flowKey) :
      HandleStep st now f
        (sendOutcome (lookupNextHopMac st.neighbors s.upstreamIp fw.cfg.upstreamMac) s.upstreamIp
          .txForward)
        (fw.sessionFor st f.flowKey now).2
        (fw.sendFrame (lookupNextHopMac st.neighbors s.upstreamIp fw.cfg.upstreamMac)
          (fw.forwardNatted rte s f))
  | unknown (hgw : fw.ToGateway rte f) (hsess : st.sessions.lookupReverse f.flowKey = none) :
      HandleStep st now f {} st f
  | reverse (hgw : fw.ToGateway rte f) {p : SessionPtr} {s : Session}
      (hsess : st.sessions.lookupReverse f.flowKey = some p) (hs : st.sessions.heap p = some s) :
      HandleStep st now f
        (sendOutcome (lookupNextHopMac st.neighbors s.clientIp fw.cfg.clientSideMac) s.clientIp
          .txReverse)
        { st with sessions := st.sessions.touch (some p) now }
        (fw.sendFrame (lookupNextHopMac st.neighbors s.clientIp fw.cfg.clientSideMac)
          (fw.reverseNatted rte s f))

theorem sessionFor_neighbors (st : ForwardState σ) (key : FlowKey) (now : UInt64) :
    (fw.sessionFor st key now).2.neighbors = st.neighbors := by
  rw [sessionFor]
  split
  · rfl
  · split
    · rfl
    · dsimp only
      split
      · rfl
      · split <;> rfl

theorem handleForward_cases {st : ForwardState σ} (h : st.sessions.Inv) {f : Frame}
    (hvip : fw.ToVip rte f) (now : UInt64) :
    fw.HandleStep rte st now f ((fw.handleForward rte st f.view now).run f).val.1
      ((fw.handleForward rte st f.view now).run f).val.2
      ((fw.handleForward rte st f.view now).run f).mem := by
  rw [handleForward]
  simp only [Traced.bind_val, Traced.bind_mem, flowKeyFromView_val, flowKeyFromView_mem]
  cases hp : (fw.sessionFor st f.flowKey now).1 with
  | none => exact .refused hvip hp
  | some p =>
      -- the pointer is not dangling, so the second branch of the match is taken
      obtain ⟨s, hs, hkey⟩ := fw.sessionFor_heap h hp
      have hstep : fw.HandleStep rte st now f _ _ _ := .forward hvip hp hs hkey
      simp only [Option.bind_some, hs, Traced.bind_val, Traced.bind_mem, Traced.pure_val,
        Traced.pure_mem, sendVia_val, fw.sendVia_mem _ (rfl : f.view.eth = 0),
        sessionFor_neighbors]
      exact hstep

theorem handleReverse_cases {st : ForwardState σ} (h : st.sessions.Inv) {f : Frame}
    (hgw : fw.ToGateway rte f) (now : UInt64) :
    fw.HandleStep rte st now f ((fw.handleReverse rte st f.view now).run f).val.1
      ((fw.handleReverse rte st f.view now).run f).val.2
      ((fw.handleReverse rte st f.view now).run f).mem := by
  rw [handleReverse]
  simp only [Traced.bind_val, Traced.bind_mem, flowKeyFromView_val, flowKeyFromView_mem]
  cases hp : st.sessions.lookupReverse f.flowKey with
  | none => exact .unknown hgw hp
  | some p =>
      obtain ⟨s, hs, -⟩ := (h.reverse_iff _ p).mp hp
      -- the rewrite reads the session after the touch, which changes its activity time only
      have htouch := SessionTable.touch_heap_self hs now
      have hstep : fw.HandleStep rte st now f _ _ _ := .reverse hgw hp hs
      simp only [htouch, Traced.bind_val, Traced.bind_mem, Traced.pure_val, Traced.pure_mem,
        sendVia_val, fw.sendVia_mem _ (rfl : f.view.eth = 0)]
      exact hstep

/-- What `handle` does with a parsed frame. -/
def dispatch (st : ForwardState σ) (now : UInt64) (f : Frame) :
    FrameM (HandleOutcome × ForwardState σ) :=
  if f.dstIp = fw.cfg.vip.ip ∧ f.dstPort = fw.cfg.vip.port then fw.handleForward rte st f.view now
  else if f.dstIp = fw.cfg.gatewayIp then fw.handleReverse rte st f.view now
  else pure ({}, st)

/-- The cases of `HandleStep` are all that `handle` does. -/
theorem handle_cases {st : ForwardState σ} (h : st.sessions.Inv) (now : UInt64) (f : Frame) :
    fw.HandleStep rte st now f ((fw.handle rte st now).run f).val.1
      ((fw.handle rte st now).run f).val.2 ((fw.handle rte st now).run f).mem := by
  rw [handle]
  simp only [Traced.bind_val, Traced.bind_mem, parseUdpIpv4_mem]
  cases hparse : ((parseUdpIpv4 rte fw.cfg.verifyChecksum).run f).val with
  | error e =>
      -- a frame that does not parse is in neither class
      have hnot : ¬fw.Parses rte f := by
        rw [Parses, hparse]
        exact nofun
      exact .ignored (fun hvip => hnot hvip.1) (fun hgw => hnot hgw.1)
  | ok v =>
      obtain rfl := view_of_parseUdpIpv4 hparse
      show fw.HandleStep rte st now f ((fw.dispatch rte st now f).run f).val.1
        ((fw.dispatch rte st now f).run f).val.2 ((fw.dispatch rte st now f).run f).mem
      rw [dispatch]
      split_ifs with hdst hgw
      · exact fw.handleForward_cases rte h ⟨hparse, hdst⟩ now
      · exact fw.handleReverse_cases rte h ⟨hparse, hdst, hgw⟩ now
      · exact .ignored (fun hvip => hdst hvip.2) (fun hg => hgw hg.2.2)

/-- The forwarder itself reports no address. -/
theorem HandleStep.learnedIp {st st' : ForwardState σ} {now : UInt64} {f f' : Frame}
    {o : HandleOutcome} (h : fw.HandleStep rte st now f o st' f') : o.learnedIp = 0 := by
  have hsend : ∀ (hop : Option EtherAddr) (ip : UInt32) (sent : HandleResult),
      (sendOutcome hop ip sent).learnedIp = 0 := by
    intro hop ip sent
    cases hop <;> rfl
  cases h with
  | ignored => rfl
  | refused => rfl
  | forward => exact hsend _ _ _
  | unknown => rfl
  | reverse => exact hsend _ _ _

end Forwarder

end VioletGateway
