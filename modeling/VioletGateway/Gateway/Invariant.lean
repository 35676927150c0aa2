import VioletGateway.Gateway.Handle
import VioletGateway.Gateway.Moves

/-!
# Invariants of the worker

`Worker.Inv` is what every reachable worker satisfies: the session table keeps its representation
invariant, its sessions belong to the VIP and have an upstream, the addresses of the configuration
are in place, and no packet waits for the address `0`.

Most of what the worker does leaves the tables alone and only moves packets between queues and
arrays; `VioletGW.SameCore` says so, and the invariant needs to be looked at only where a frame is
handled or a timer runs.
-/

set_option autoImplicit false

namespace VioletGateway

open Support

/-! ## Sessions across a handled frame -/

namespace SessionTable

/-- A step of the session table that may add sessions of a kind. -/
structure Evolves (t t' : SessionTable) (New : Session → Prop) : Prop where
  inv : t'.Inv
  continues : t.Continues t'
  sessions : ∀ p s', t'.heap p = some s' → (∃ s, t.heap p = some s ∧ s.SameButTime s') ∨ New s'

theorem Keeps.evolves {t t' : SessionTable} (h : t.Keeps t') (hinv : t'.Inv)
    (New : Session → Prop) : t.Evolves t' New :=
  ⟨hinv, h.continues, fun p s' hs' => Or.inl (h.stable p s' hs')⟩

end SessionTable

namespace Forwarder

variable {σ : Type} {rte : Rte} {fw : Forwarder σ}

theorem sessionFor_evolves (fw : Forwarder σ) {st : ForwardState σ} (h : st.sessions.Inv) (key : FlowKey)
    (now : UInt64) :
    st.sessions.Evolves (fw.sessionFor st key now).2.sessions
      fun s => s.forwardKey = key ∧ s.upstreamIp ≠ 0 := by
  have hstep := fw.sessionFor_cases h key now
  generalize fw.sessionFor st key now = r at hstep ⊢
  cases hstep with
  -- a known flow is touched
  | @found p _ _ _ =>
      exact (SessionTable.keeps_touch st.sessions (some p) now).evolves
        (SessionTable.touch_inv h (some p) now) _
  | refused => exact (SessionTable.Keeps.refl _).evolves h _
  | @created hkey _ _ up _ hup _ =>
      refine ⟨SessionTable.create_inv h hkey up.ip up.port now,
        SessionTable.continues_create h key up.ip up.port now, ?_⟩
      intro p s' hs'
      -- a new session has the key and the endpoint it was created with
      rcases SessionTable.create_heap h hs' with hs | ⟨-, -, snat, rfl⟩
      · exact Or.inl ⟨s', hs, .refl s'⟩
      · exact Or.inr ⟨rfl, hup⟩

/-- A session as the forwarder creates them. -/
def OwnSession (vip : VipEndpoint) (s : Session) : Prop :=
  s.forwardKey.dstIp = vip.ip ∧ s.forwardKey.dstPort = vip.port ∧
    s.forwardKey.proto = ipprotoUdp ∧ s.upstreamIp ≠ 0

theorem OwnSession.congr {vip : VipEndpoint} {s s' : Session} (h : OwnSession vip s)
    (hsame : s.SameButTime s') : OwnSession vip s' := by
  rw [Session.SameButTime] at hsame
  rw [hsame]
  exact h

/-- Handling a frame evolves the session table by at most one session of the VIP. -/
theorem HandleStep.evolves {st st' : ForwardState σ} {now : UInt64} {f f' : Frame}
    {o : HandleOutcome} (hstep : fw.HandleStep rte st now f o st' f') (h : st.sessions.Inv) :
    st.sessions.Evolves st'.sessions (OwnSession fw.cfg.vip) := by
  have hforward : fw.ToVip rte f →
      st.sessions.Evolves (fw.sessionFor st f.flowKey now).2.sessions (OwnSession fw.cfg.vip) := by
    rintro ⟨-, hip, hport⟩
    obtain ⟨hinv, hcont, hsess⟩ := sessionFor_evolves fw h f.flowKey now
    refine ⟨hinv, hcont, ?_⟩
    intro p s' hs'
    rcases hsess p s' hs' with hold | ⟨hkey, hup⟩
    · exact Or.inl hold
    · refine Or.inr ⟨?_, ?_, ?_, hup⟩
      · rw [hkey]
        exact hip
      · rw [hkey]
        exact hport
      · rw [hkey]
        rfl
  cases hstep with
  | ignored => exact (SessionTable.Keeps.refl _).evolves h _
  | refused hvip _ => exact hforward hvip
  | forward hvip _ _ _ => exact hforward hvip
  | unknown => exact (SessionTable.Keeps.refl _).evolves h _
  | @reverse _ p _ _ _ =>
      exact (SessionTable.keeps_touch st.sessions (some p) now).evolves
        (SessionTable.touch_inv h (some p) now) _

end Forwarder

/-! ## What moving packets leaves alone -/

/-- The two gateways agree on everything but the waiting packets and the times of the probes. -/
structure VioletGW.SameCore (g g' : VioletGW) : Prop where
  fcfg : g'.fcfg = g.fcfg
  acfg : g'.acfg = g.acfg
  sessions : g'.sessions = g.sessions
  upstreams : g'.upstreams = g.upstreams
  neighbors : g'.neighbors = g.neighbors

namespace VioletGW.SameCore

theorem refl (g : VioletGW) : g.SameCore g := ⟨rfl, rfl, rfl, rfl, rfl⟩

theorem trans {g g' g'' : VioletGW} (h : g.SameCore g') (h' : g'.SameCore g'') : g.SameCore g'' :=
  ⟨h'.fcfg.trans h.fcfg, h'.acfg.trans h.acfg, h'.sessions.trans h.sessions,
    h'.upstreams.trans h.upstreams, h'.neighbors.trans h.neighbors⟩

end VioletGW.SameCore

namespace Worker

variable (rte : Rte) (w : Worker)

theorem enqueuePending_core (ip : UInt32) (m : Mbuf) (now : UInt64) :
    w.gw.SameCore (w.enqueuePending ip m now).gw := by
  rw [enqueuePending]
  split_ifs <;> exact ⟨rfl, rfl, rfl, rfl, rfl⟩

theorem maybeProbeArp_core (ip : UInt32) (now : UInt64) (buf : Option Frame) (cap : Nat) :
    w.gw.SameCore (w.maybeProbeArp ip now buf cap).gw := by
  have hprobe := w.maybeProbeArp_step ip now buf cap
  generalize w.maybeProbeArp ip now buf cap = w' at hprobe ⊢
  cases hprobe <;> exact ⟨rfl, rfl, rfl, rfl, rfl⟩

theorem flushPending_core (ip : UInt32) (now : UInt64) (cap : Nat) :
    w.gw.SameCore (w.flushPending rte ip now cap).gw := by
  have hgw := foldl_flushEntry_gw rte ip now cap (w.queue ip) (w, [])
  rw [flushPending]
  generalize (w.queue ip).foldl (flushEntry rte ip now cap) (w, []) = s at hgw
  dsimp only at hgw ⊢
  split_ifs
  · exact .refl _
  · exact .refl _
  · rw [← hgw]
    exact ⟨rfl, rfl, rfl, rfl, rfl⟩
  · rw [← hgw]
    exact ⟨rfl, rfl, rfl, rfl, rfl⟩

theorem flushLearned_core (o : HandleOutcome) (now : UInt64) (cap : Nat) :
    w.gw.SameCore (w.flushLearned rte o now cap).gw := by
  rw [flushLearned]
  split_ifs
  · exact w.flushPending_core rte o.learnedIp now cap
  · exact .refl _

theorem dispose_core (o : HandleOutcome) (m : Mbuf) (now : UInt64) (buf : Option Frame)
    (cap : Nat) : w.gw.SameCore (w.dispose o m now buf cap).gw := by
  rw [dispose]
  cases o.result with
  | pendingArp => exact (w.enqueuePending_core _ _ _).trans (maybeProbeArp_core _ _ _ _ _)
  | drop => exact .refl _
  | txForward => exact .refl _
  | txReverse => exact .refl _
  | txArp => exact .refl _

/-- What the loop does with a frame after it was handled only moves packets. -/
theorem handleRx_core (m : Mbuf) (now : UInt64) (buf : Option Frame) (cap : Nat) :
    ((w.gw.handle rte now).run m.frame).val.2.SameCore (w.handleRx rte m now buf cap).gw :=
  (flushLearned_core rte { w with gw := ((w.gw.handle rte now).run m.frame).val.2 } _ now cap).trans
    (dispose_core _ _ _ now buf cap)

end Worker

/-! ## The queues -/

namespace Worker

variable (rte : Rte) (w : Worker)

theorem enqueuePending_lookup_ne {ip ip' : UInt32} (hne : ip' ≠ ip) (m : Mbuf) (now : UInt64) :
    (w.enqueuePending ip m now).gw.arpPending.lookup ip' = w.gw.arpPending.lookup ip' := by
  rw [enqueuePending]
  split_ifs
  · rfl
  · rfl
  · exact AList.lookup_insert_ne hne

theorem maybeProbeArp_arpPending (ip : UInt32) (now : UInt64) (buf : Option Frame) (cap : Nat) :
    (w.maybeProbeArp ip now buf cap).gw.arpPending = w.gw.arpPending := by
  have hprobe := w.maybeProbeArp_step ip now buf cap
  generalize w.maybeProbeArp ip now buf cap = w' at hprobe ⊢
  cases hprobe <;> rfl

theorem flushPending_lookup_ne {ip ip' : UInt32} (hne : ip' ≠ ip) (now : UInt64) (cap : Nat) :
    (w.flushPending rte ip now cap).gw.arpPending.lookup ip' = w.gw.arpPending.lookup ip' := by
  have hgw := foldl_flushEntry_gw rte ip now cap (w.queue ip) (w, [])
  rw [flushPending]
  generalize (w.queue ip).foldl (flushEntry rte ip now cap) (w, []) = s at hgw
  dsimp only at hgw ⊢
  split_ifs
  · rfl
  · rfl
  · rw [hgw]
    exact AList.lookup_erase_ne hne
  · rw [hgw]
    exact AList.lookup_insert_ne hne

/-- No packet waits for the address `0`: the methods of the queues return at once on it. -/
theorem enqueuePending_zero {ip : UInt32} (m : Mbuf) (now : UInt64) :
    (w.enqueuePending ip m now).gw.arpPending.lookup 0 = w.gw.arpPending.lookup 0 := by
  -- the early return keeps the address `0` out of the map
  by_cases hip : ip = 0
  · simp only [enqueuePending, if_pos hip]
  · exact w.enqueuePending_lookup_ne (Ne.symm hip) m now

theorem flushLearned_zero (o : HandleOutcome) (now : UInt64) (cap : Nat) :
    (w.flushLearned rte o now cap).gw.arpPending.lookup 0 = w.gw.arpPending.lookup 0 := by
  rw [flushLearned]
  split_ifs with hip
  · exact w.flushPending_lookup_ne rte (Ne.symm hip) now cap
  · rfl

theorem dispose_zero (o : HandleOutcome) (m : Mbuf) (now : UInt64) (buf : Option Frame)
    (cap : Nat) :
    (w.dispose o m now buf cap).gw.arpPending.lookup 0 = w.gw.arpPending.lookup 0 := by
  rw [dispose]
  cases o.result with
  | pendingArp =>
      dsimp only
      rw [maybeProbeArp_arpPending, enqueuePending_zero]
  | drop => rfl
  | txForward => rfl
  | txReverse => rfl
  | txArp => rfl

end Worker

/-! ## The gateway across a handled frame -/

namespace VioletGW.HandleStep

variable {rte : Rte} {g g' : VioletGW} {now : UInt64} {f f' : Frame} {o : HandleOutcome}

theorem fcfg (h : g.HandleStep rte now f o g' f') : g'.fcfg = g.fcfg := by
  cases h <;> rfl

theorem arpPending (h : g.HandleStep rte now f o g' f') : g'.arpPending = g.arpPending := by
  cases h <;> rfl

theorem evolves (h : g.HandleStep rte now f o g' f') (hinv : g.sessions.Inv) :
    g.sessions.Evolves g'.sessions (Forwarder.OwnSession g.fcfg.vip) := by
  cases h with
  | other => exact (SessionTable.Keeps.refl _).evolves hinv _
  | arp => exact (SessionTable.Keeps.refl _).evolves hinv _
  | ipv4 _ hfwd => exact hfwd.evolves hinv

end VioletGW.HandleStep

namespace Worker

variable (rte : Rte)

theorem handleRx_fcfg {w : Worker} (h : w.gw.sessions.Inv) (m : Mbuf) (now : UInt64)
    (buf : Option Frame) (cap : Nat) : (w.handleRx rte m now buf cap).gw.fcfg = w.gw.fcfg :=
  (handleRx_core rte w m now buf cap).fcfg.trans (w.gw.handle_cases rte h now m.frame).fcfg

theorem handleRx_evolves {w : Worker} (h : w.gw.sessions.Inv) (m : Mbuf) (now : UInt64)
    (buf : Option Frame) (cap : Nat) :
    w.gw.sessions.Evolves (w.handleRx rte m now buf cap).gw.sessions
      (Forwarder.OwnSession w.gw.fcfg.vip) := by
  rw [(handleRx_core rte w m now buf cap).sessions]
  exact (w.gw.handle_cases rte h now m.frame).evolves h

/-- Every step evolves the session table by sessions of the VIP. -/
theorem step_evolves {w : Worker} (h : w.gw.sessions.Inv) (e : Event) :
    w.gw.sessions.Evolves (w.step rte e).gw.sessions (Forwarder.OwnSession w.gw.fcfg.vip) := by
  have hsame : w.gw.sessions.Evolves w.gw.sessions (Forwarder.OwnSession w.gw.fcfg.vip) :=
    (SessionTable.Keeps.refl _).evolves h _
  cases e with
  | expireSessions now =>
      exact (SessionTable.keeps_expire _ now).evolves (SessionTable.expire_inv h now) _
  | expireNeighbors now => exact hsame
  | expirePending now => exact hsame
  | pollControl update => cases update <;> exact hsame
  | setUpstreams endpoints => exact hsame
  | setPolicy policy => exact hsame
  | recvBurst frames => exact hsame
  | handleNext now buf =>
      cases hrx : w.rx with
      | nil =>
          simp only [step, hrx]
          exact hsame
      | cons m rest =>
          simp only [step, hrx]
          exact handleRx_evolves rte (w := { w with rx := rest }) h m now buf Config.ioRxBurst
  | finishBurst accepted => exact hsame

theorem handleRx_zero {w : Worker} (h : w.gw.sessions.Inv) (m : Mbuf) (now : UInt64)
    (buf : Option Frame) (cap : Nat) :
    (w.handleRx rte m now buf cap).gw.arpPending.lookup 0 = w.gw.arpPending.lookup 0 := by
  unfold handleRx
  dsimp only
  rw [dispose_zero, flushLearned_zero]
  dsimp only
  rw [(w.gw.handle_cases rte h now m.frame).arpPending]

/-- No step changes the configuration of the forwarder. -/
theorem step_fcfg {w : Worker} (h : w.gw.sessions.Inv) (e : Event) :
    (w.step rte e).gw.fcfg = w.gw.fcfg := by
  cases e with
  | pollControl update => cases update <;> rfl
  | handleNext now buf =>
      cases hrx : w.rx with
      | nil => simp only [step, hrx]
      | cons m rest =>
          simp only [step, hrx]
          exact handleRx_fcfg rte (w := { w with rx := rest }) h m now buf Config.ioRxBurst
  | _ => rfl

/-- No step lets a packet wait for the address `0`. -/
theorem step_zero {w : Worker} (h : w.gw.sessions.Inv) (e : Event)
    (hzero : w.gw.arpPending.lookup 0 = none) : (w.step rte e).gw.arpPending.lookup 0 = none := by
  cases e with
  | expirePending now =>
      show (mapMaybe _ w.gw.arpPending).lookup 0 = none
      rw [lookup_mapMaybe, hzero]
      rfl
  | pollControl update => cases update <;> exact hzero
  | handleNext now buf =>
      cases hrx : w.rx with
      | nil =>
          simp only [step, hrx]
          exact hzero
      | cons m rest =>
          simp only [step, hrx]
          rw [handleRx_zero rte (w := { w with rx := rest }) h m now buf Config.ioRxBurst]
          exact hzero
  | _ => exact hzero

/-! ## The invariant -/

/-- What every reachable worker satisfies. -/
structure Inv (cfg : ServiceConfig) (w : Worker) : Prop where
  vip : w.gw.fcfg.vip = cfg.vip
  gatewayIp : w.gw.fcfg.gatewayIp = cfg.gatewayIp
  tableIp : w.gw.sessions.gatewayIp = cfg.gatewayIp
  sessions : w.gw.sessions.Inv
  own : ∀ p s, w.gw.sessions.heap p = some s → Forwarder.OwnSession cfg.vip s
  noZero : w.gw.arpPending.lookup 0 = none

theorem start_inv (cfg : ServiceConfig) (shm : Option CpUpdate) (nicMac : Option EtherAddr) :
    (start cfg shm nicMac).Inv cfg := by
  -- the default range of ports starts at 10000
  have hsess : SessionTable.Inv (.new cfg.gatewayIp cfg.sessionIdleTimeoutMs) :=
    SessionTable.new_inv _ _ _ _ (by decide)
  have hnone : ∀ p s, SessionTable.heap (.new cfg.gatewayIp cfg.sessionIdleTimeoutMs) p = some s →
      Forwarder.OwnSession cfg.vip s := by
    intro p s hs
    cases hs
  cases nicMac with
  | none => exact ⟨rfl, rfl, rfl, hsess, hnone, rfl⟩
  | some mac => exact ⟨rfl, rfl, rfl, hsess, hnone, rfl⟩

theorem step_inv {cfg : ServiceConfig} (w : Worker) (e : Event) (h : w.Inv cfg) :
    (w.step rte e).Inv cfg := by
  have hev := step_evolves rte h.sessions e
  have hfcfg := step_fcfg rte h.sessions e
  refine ⟨?_, ?_, ?_, hev.inv, ?_, step_zero rte h.sessions e h.noZero⟩
  · rw [hfcfg]
    exact h.vip
  · rw [hfcfg]
    exact h.gatewayIp
  · rw [hev.continues.gatewayIp]
    exact h.tableIp
  · intro p s' hs'
    rcases hev.sessions p s' hs' with ⟨s, hs, hsame⟩ | hnew
    · exact (h.own p s hs).congr hsame
    · rw [← h.vip]
      exact hnew

theorem Reachable.inv {rte : Rte} {cfg : ServiceConfig} {w : Worker} (h : Reachable rte cfg w) :
    w.Inv cfg := by
  obtain ⟨shm, nicMac, hr⟩ := h
  exact hr.invariant (step_inv rte) (start_inv cfg shm nicMac)

/-- The sessions after a run continue those before it. -/
theorem run_continues {cfg : ServiceConfig} {w : Worker} (h : w.Inv cfg) (es : List Event) :
    w.gw.sessions.Continues (run (step rte) w es).gw.sessions :=
  run_relation (P := Inv cfg) (R := fun w w' => w.gw.sessions.Continues w'.gw.sessions)
    (step_inv rte) (fun w => .refl w.gw.sessions) (fun h₁ h₂ => h₁.trans h₂)
    (fun _ e hw => (step_evolves rte hw.sessions e).continues) h es

/-- A run does not change the configuration of the forwarder. -/
theorem run_fcfg {cfg : ServiceConfig} {w : Worker} (h : w.Inv cfg) (es : List Event) :
    (run (step rte) w es).gw.fcfg = w.gw.fcfg :=
  run_relation (P := Inv cfg) (R := fun w w' => w'.gw.fcfg = w.gw.fcfg)
    (step_inv rte) (fun _ => rfl) (fun h₁ h₂ => h₂.trans h₁)
    (fun _ e hw => step_fcfg rte hw.sessions e) h es

end Worker

end VioletGateway
