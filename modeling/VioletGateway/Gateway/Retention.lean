import VioletGateway.Forward.Activity
import VioletGateway.Gateway.Refinement

/-!
# What a client can rely on

`nat_round_trip` and `flow_sticky` speak of runs in which a session stays alive; here it is the clock
that says when it does. For less than the idle timeout after a frame of a client was accepted, whatever
else the worker does in that time, the frames of this client leave from the same port to the same
upstream, and the replies from there reach the client (`flow_retained`).
-/

set_option autoImplicit false

namespace VioletGateway

open Support

namespace Worker

variable (rte : Rte) {cfg : ServiceConfig} {w : Worker}

/-- A step of the worker, with the time at which it is taken. -/
structure TimedEvent where
  time : UInt64
  event : Event
  at_time : event.At time

/-- A step with its time. -/
def timedStep (w : Worker) (e : TimedEvent) : Worker := w.step rte e.event

theorem run_timedStep (w : Worker) (es : List TimedEvent) :
    run (timedStep rte) w es = run (step rte) w (es.map TimedEvent.event) := by
  induction es generalizing w with
  | nil => rfl
  | cons e es ih => exact ih (w.step rte e.event)

/-- The session at `p` has been active since `since`, unless it is too late. -/
structure Retained (cfg : ServiceConfig) (since : UInt64) (p : SessionPtr) (t : UInt64) (w : Worker) :
    Prop where
  inv : w.Inv cfg
  tables : w.Tables cfg
  active : t.toNat < since.toNat + cfg.sessionIdleTimeoutMs.toNat →
    w.gw.sessions.ActiveIn since t p

variable {since t : UInt64} {p : SessionPtr}

theorem Retained.mono (h : w.Retained cfg since p t) {t' : UInt64} (hle : t ≤ t') :
    w.Retained cfg since p t' := by
  refine ⟨h.inv, h.tables, fun hsoon => ?_⟩
  have hnat := UInt64.le_iff_toNat_le.mp hle
  obtain ⟨s, hs, hsince, hlast⟩ := h.active (by omega)
  exact ⟨s, hs, hsince, UInt64.le_trans hlast hle⟩

/-- A step before the timeout keeps the session. -/
theorem activeIn_step (h : w.Inv cfg) (htables : w.Tables cfg)
    (hactive : w.gw.sessions.ActiveIn since t p)
    (hsoon : t.toNat < since.toNat + cfg.sessionIdleTimeoutMs.toNat) {e : Event} (he : e.At t) :
    (w.step rte e).gw.sessions.ActiveIn since t p := by
  cases e with
  | expireSessions now =>
      obtain rfl : now = t := he
      refine SessionTable.call_activeIn h.sessions.coherent hactive (.expire now) fun now' htime => ?_
      obtain rfl := Option.some.inj htime
      rw [htables.idleTimeoutMs]
      exact ⟨UInt64.le_refl _, hsoon⟩
  | handleNext now buf =>
      obtain rfl : now = t := he
      obtain ⟨s, hs, hsince, hlast⟩ := hactive
      cases hrx : w.rx with
      | nil =>
          simp only [Worker.step, hrx]
          exact ⟨s, hs, hsince, hlast⟩
      | cons m rest =>
          have hadvances := (w.gw.handle_cases rte h.sessions now m.frame).advances h.sessions
          rw [step_handleNext_sessions rte hrx now buf]
          obtain ⟨s', hs'⟩ := hadvances.kept p s hs
          -- the frame has made the session active, or it is as it was
          rcases hadvances.active p s' hs' with hnow | hold
          · exact ⟨s', hs', hnow ▸ UInt64.le_trans hsince hlast, hnow ▸ UInt64.le_refl _⟩
          · obtain rfl := Option.some.inj (hs.symm.trans hold)
            exact ⟨s, hs', hsince, hlast⟩
  | pollControl update => cases update <;> exact hactive
  | expireNeighbors now => exact hactive
  | expirePending now => exact hactive
  | setUpstreams endpoints => exact hactive
  | setPolicy policy => exact hactive
  | recvBurst frames => exact hactive
  | finishBurst accepted => exact hactive

theorem Retained.step (w : Worker) (e : TimedEvent) (h : w.Retained cfg since p e.time) :
    (w.timedStep rte e).Retained cfg since p e.time where
  inv := step_inv rte w e.event h.inv
  tables := h.tables.step rte h.inv.sessions e.event
  active := fun hsoon => activeIn_step rte h.inv h.tables (h.active hsoon) hsoon e.at_time

theorem Reachable.tables (hw : Reachable rte cfg w) : w.Tables cfg := by
  obtain ⟨shm, nicMac, es, rfl⟩ := hw
  have hall : (run (Worker.step rte) (start cfg shm nicMac) es).Inv cfg ∧
      (run (Worker.step rte) (start cfg shm nicMac) es).Tables cfg :=
    run_invariant (P := fun w => w.Inv cfg ∧ w.Tables cfg)
      (fun w e h => ⟨step_inv rte w e h.1, h.2.step rte h.1.sessions e⟩)
      ⟨start_inv cfg shm nicMac, start_tables cfg shm nicMac⟩ es
  exact hall.2

/-- After any steps in the order of the clock, the session is there if the timeout has not passed. -/
theorem retained_run (h : w.Inv cfg) (htables : w.Tables cfg) {s : Session}
    (hs : w.gw.sessions.heap p = some s) (hactive : s.lastActiveMs = since) {t' : UInt64}
    {later : List TimedEvent}
    (hclock : (since :: later.map TimedEvent.time ++ [t']).Pairwise (· ≤ ·))
    (hsoon : t'.toNat < since.toNat + cfg.sessionIdleTimeoutMs.toNat) :
    p ∈ (run (Worker.step rte) w (later.map TimedEvent.event)).gw.sessions.sessions := by
  have hstart : w.Retained cfg since p since :=
    ⟨h, htables, fun _ => ⟨s, hs, hactive ▸ UInt64.le_refl _, hactive ▸ UInt64.le_refl _⟩⟩
  rw [List.cons_append, List.pairwise_cons, List.pairwise_append] at hclock
  obtain ⟨hfirst, hordered, -, hlast⟩ := hclock
  have hend : (run (timedStep rte) w later).Retained cfg since p t' := by
    refine run_clocked TimedEvent.time (P := Retained cfg since p) (fun hle h => h.mono hle)
      (Retained.step rte) hstart hordered ?_ ?_ ?_
    · exact fun e he => hfirst _ (List.mem_append_left _ (List.mem_map_of_mem he))
    · exact fun e he => hlast _ (List.mem_map_of_mem he) _ (List.mem_singleton_self _)
    · exact hfirst _ (by simp)
  rw [run_timedStep] at hend
  obtain ⟨s', hs', -⟩ := hend.active hsoon
  exact (hend.inv.sessions.coherent.live_iff p).mpr ⟨s', hs'⟩

/-- The reply to a client frame is translated for the client. -/
theorem handle_reply (h : w.Inv cfg) (hne : cfg.gatewayIp ≠ cfg.vip.ip) {s : Session}
    (hs : w.gw.sessions.heap p = some s) {f : Frame} (hvip : f.dstIp = cfg.vip.ip ∧
      f.dstPort = cfg.vip.port) (hkey : s.forwardKey = f.flowKey) {r : Frame}
    (hparse : w.gw.forwarder.Parses rte r)
    (hends : r.endpoints = ((s.upstreamIp, s.upstreamPort), (cfg.gatewayIp, s.snatPort)))
    (now : UInt64) :
    ((w.gw.handle rte now).run r).val.1.result ≠ .drop ∧
      ((w.gw.handle rte now).run r).mem.endpoints = f.endpoints.swap := by
  have hdst : r.dstIp = cfg.gatewayIp := congrArg (fun e => e.2.1) hends
  have hgw : w.gw.forwarder.ToGateway rte r := by
    refine ⟨hparse, ?_, hdst.trans h.gatewayIp.symm⟩
    rintro ⟨hip, -⟩
    exact hne (hdst.symm.trans (hip.trans (congrArg VipEndpoint.ip h.vip)))
  have hmatch : w.gw.sessions.lookupReverse r.flowKey = some p := (matchesReply_iff h hs hdst).mpr
    ⟨congrArg (fun e => e.1.1) hends, congrArg (fun e => e.1.2) hends,
      congrArg (fun e => e.2.2) hends⟩
  rcases handle_toGateway rte h hgw now with ⟨-, hnone⟩ | ⟨q, u, hfound, hu, hresult, hsent⟩
  · exact nomatch hmatch.symm.trans hnone
  · obtain rfl := Option.some.inj (hmatch.symm.trans hfound)
    obtain rfl := Option.some.inj (hs.symm.trans hu)
    refine ⟨hresult, ?_⟩
    have hclient : s.client = (f.srcIp, f.srcPort) := by
      rw [Session.client, client_of_made h hs, hkey]
      rfl
    rw [hsent, hclient, Frame.endpoints, hvip.1, hvip.2]
    rfl

/-- A frame of a client that the worker accepts at `t` opens a window: at any time `t'` less than the
idle timeout later, after any steps in the order of the clock, the frames of this client are accepted and
leave with the same endpoints, and replies to them are translated for the client. -/
theorem flow_retained (cfg : ServiceConfig) (hne : cfg.gatewayIp ≠ cfg.vip.ip) {w : Worker}
    (hw : Reachable rte cfg w) {m : Mbuf} {rest : List Mbuf} (hrx : w.rx = m :: rest)
    (hvip : w.gw.forwarder.ToVip rte m.frame) {t : UInt64} (buf : Option Frame)
    (haccept : ((w.gw.handle rte t).run m.frame).val.1.result ≠ .drop) (later : List TimedEvent)
    (t' : UInt64) (hclock : (t :: later.map TimedEvent.time ++ [t']).Pairwise (· ≤ ·))
    (hsoon : t'.toNat < t.toNat + cfg.sessionIdleTimeoutMs.toNat) {w' : Worker}
    (hw' : run (step rte) (w.step rte (.handleNext t buf)) (later.map TimedEvent.event) = w') :
    (∀ f, w'.gw.forwarder.ToVip rte f → f.endpoints.1 = m.frame.endpoints.1 →
      ((w'.gw.handle rte t').run f).val.1.result ≠ .drop ∧
        ((w'.gw.handle rte t').run f).mem.endpoints =
          ((w.gw.handle rte t).run m.frame).mem.endpoints) ∧
    ∀ r, w'.gw.forwarder.Parses rte r →
      r.endpoints = ((w.gw.handle rte t).run m.frame).mem.endpoints.swap →
      ((w'.gw.handle rte t').run r).val.1.result ≠ .drop ∧
        ((w'.gw.handle rte t').run r).mem.endpoints = m.frame.endpoints.swap := by
  have h := hw.inv
  obtain ⟨p, s, hsess, hp, hs, hkey, hsent⟩ := forward_of_toVip h hvip haccept
  have hsessions := step_handleNext_sessions rte hrx t buf
  have h₁ := step_inv rte w (.handleNext t buf) h
  have hs₁ : (w.step rte (.handleNext t buf)).gw.sessions.heap p = some s := by
    rw [hsessions]
    exact hs
  -- the frame itself makes the session active
  have hactive : s.lastActiveMs = t := by
    have hcoherent : (w.gw.learnFrom m.frame t).forwardState.sessions.Coherent := h.sessions.coherent
    obtain ⟨u, hu, hlast, -⟩ := (w.gw.forwarder.sessionFor_accepted hcoherent hp).session
    rw [hsess] at hs
    obtain rfl := Option.some.inj (hs.symm.trans hu)
    exact hlast
  have htables := (hw.tables rte).step rte h.sessions (.handleNext t buf)
  have hlive := retained_run rte h₁ htables hs₁ hactive hclock hsoon
  obtain ⟨s', hs', hsame⟩ := session_after_run h₁ rte hs₁ hlive
  have h₂ := run_invariant (step_inv rte) h₁ (later.map TimedEvent.event)
  rw [hw'] at hs' h₂
  have hkey' : s'.forwardKey = m.frame.flowKey := by
    rw [hsame]
    exact hkey
  have hvip' : m.frame.dstIp = cfg.vip.ip ∧ m.frame.dstPort = cfg.vip.port := by
    rw [← h.vip]
    exact hvip.2
  constructor
  · intro f hf hclient
    have hflow : m.frame.flowKey = f.flowKey := by
      obtain ⟨hip, hport⟩ := Prod.mk.inj hclient
      have hdst : f.dstIp = cfg.vip.ip ∧ f.dstPort = cfg.vip.port := by
        rw [← h₂.vip]
        exact hf.2
      simp only [Frame.flowKey, hip, hport, hdst.1, hdst.2, hvip'.1, hvip'.2]
    rw [hsent]
    obtain ⟨hresult, hends⟩ := forward_of_session h₂ hf hs' (hkey'.trans hflow) t'
    refine ⟨hresult, hends.trans ?_⟩
    rw [hsame]
  · intro r hparse hends
    refine handle_reply rte h₂ hne hs' hvip' hkey' hparse ?_ t'
    rw [hends, hsent, hsame]
    rfl

/-- The reply to the lab client comes 59 seconds later, and the session table was swept in between. -/
theorem flow_retained_lab :
    (((run (step Rte.dpdk) (labReceived.step Rte.dpdk (.handleNext 0 none))
      [.expireSessions 30000]).gw.handle Rte.dpdk 59000).run labReplyFrame).mem.endpoints =
        labClientFrame.endpoints.swap :=
  ((flow_retained Rte.dpdk .lab (by decide) labReceived_reachable (m := ⟨0, labClientFrame⟩) rfl
    labClientFrame_toVip none (by decide +kernel)
    [⟨30000, .expireSessions 30000, rfl⟩] 59000 (by decide) (by decide) rfl).2
    labReplyFrame (by unfold Forwarder.Parses; decide +kernel) (by decide +kernel)).2

end Worker

end VioletGateway
