import VioletGateway.Gateway.Freshness
import VioletGateway.Gateway.RoundTrip
import VioletGateway.Support.Napt

/-!
# The gateway as a translator

The gateway is a translator in the sense of `Support.Napt`: the flows are the endpoints of the clients,
the backends those of the upstreams, and the ports are the SNAT ports. Its labels are read off the
frames before and after they are handled (`labels`), so they are what a sniffer on both sides would
note down; only the lapse of an idle session is not seen on the wire.

Every run of the worker is a path of the translator (`napt_refines`). What the session table holds is
thus determined by the traffic so far, and so is what becomes of a reply
(`reply_goes_to_last_user`).
-/

set_option autoImplicit false

namespace VioletGateway

open Support

/-- An IPv4 address and a UDP port. -/
abbrev Endpoint := UInt32 × UInt16

/-! ## Sessions as holders of ports -/

def Session.client (s : Session) : Endpoint := (s.clientIp, s.clientPort)

def Session.upstream (s : Session) : Endpoint := (s.upstreamIp, s.upstreamPort)

theorem Session.SameButTime.client {s s' : Session} (h : s.SameButTime s') : s'.client = s.client := by
  rw [Session.SameButTime] at h
  rw [h]
  rfl

theorem Session.SameButTime.upstream {s s' : Session} (h : s.SameButTime s') :
    s'.upstream = s.upstream := by
  rw [Session.SameButTime] at h
  rw [h]
  rfl

theorem Session.SameButTime.snatPort {s s' : Session} (h : s.SameButTime s') :
    s'.snatPort = s.snatPort := by
  rw [Session.SameButTime] at h
  rw [h]

namespace SessionTable

/-- The client that holds a SNAT port, and the upstream that it holds it for. -/
def holder (t : SessionTable) : Napt Endpoint Endpoint UInt16 := fun port =>
  (t.live.find? fun ps => ps.2.snatPort = port).map fun ps => (ps.2.client, ps.2.upstream)

theorem holder_eq_some_iff {t : SessionTable} (h : t.Coherent) (port : UInt16) (c b : Endpoint) :
    t.holder port = some (c, b) ↔
      ∃ p s, t.heap p = some s ∧ s.snatPort = port ∧ s.client = c ∧ s.upstream = b := by
  rw [holder, Option.map_eq_some_iff]
  constructor
  · rintro ⟨⟨p, s⟩, hfind, heq⟩
    have hlive := (mem_live h p s).mp (List.mem_of_find?_eq_some hfind)
    have hport := List.find?_some hfind
    obtain ⟨rfl, rfl⟩ := Prod.mk.inj heq
    exact ⟨p, s, hlive, of_decide_eq_true hport, rfl, rfl⟩
  · rintro ⟨p, s, hs, rfl, rfl, rfl⟩
    have hlive := (mem_live h p s).mpr hs
    cases hfind : t.live.find? fun ps => ps.2.snatPort = s.snatPort with
    | none => exact absurd (decide_eq_true rfl) (List.find?_eq_none.mp hfind (p, s) hlive)
    | some ps =>
        obtain ⟨q, u⟩ := ps
        have hu := (mem_live h q u).mp (List.mem_of_find?_eq_some hfind)
        have hport : u.snatPort = s.snatPort := by simpa using List.find?_some hfind
        obtain rfl := h.port_inj q p u s hu hs hport
        obtain rfl := Option.some.inj (hu.symm.trans hs)
        exact ⟨_, rfl, rfl⟩

/-- Two tables with the same sessions, up to the times, have the same holders. -/
theorem holder_congr {t t' : SessionTable} (h : t.Coherent) (h' : t'.Coherent)
    (hto : ∀ p s, t.heap p = some s → ∃ s', t'.heap p = some s' ∧ s.SameButTime s')
    (hfrom : ∀ p s', t'.heap p = some s' → ∃ s, t.heap p = some s ∧ s.SameButTime s') :
    t'.holder = t.holder := by
  funext port
  apply Option.ext
  rintro ⟨c, b⟩
  rw [holder_eq_some_iff h', holder_eq_some_iff h]
  constructor
  · rintro ⟨p, s', hs', rfl, rfl, rfl⟩
    obtain ⟨s, hs, hsame⟩ := hfrom p s' hs'
    exact ⟨p, s, hs, hsame.snatPort.symm, hsame.client.symm, hsame.upstream.symm⟩
  · rintro ⟨p, s, hs, rfl, rfl, rfl⟩
    obtain ⟨s', hs', hsame⟩ := hto p s hs
    exact ⟨p, s', hs', hsame.snatPort, hsame.client, hsame.upstream⟩

theorem holder_touch {t : SessionTable} (h : t.Inv) (o : Option SessionPtr) (now : UInt64) :
    (t.touch o now).holder = t.holder := by
  refine holder_congr h.coherent (touch_inv h o now).coherent ?_ ?_
  · intro p s hs
    exact ⟨_, (touch_heap_iff t o now p _).mpr ⟨s, hs, rfl⟩, by split_ifs <;> rfl⟩
  · intro p s' hs'
    obtain ⟨s, hs, rfl⟩ := (touch_heap_iff t o now p s').mp hs'
    exact ⟨s, hs, by split_ifs <;> rfl⟩

/-- What `create` does to the holders: nothing, or the flow takes a port that nobody held. -/
theorem holder_create {t : SessionTable} (h : t.Inv) {key : FlowKey}
    (hkey : t.lookupForward key = none) (ip : UInt32) (port : UInt16) (now : UInt64) :
    ((t.create key ip port now).1 = none ∧ (t.create key ip port now).2.holder = t.holder) ∨
      ∃ p s, (t.create key ip port now).1 = some p ∧
        (t.create key ip port now).2.heap p = some s ∧ t.holder s.snatPort = none ∧
        s.client = (key.srcIp, key.srcPort) ∧
        (t.create key ip port now).2.holder =
          Function.update t.holder s.snatPort (some (s.client, s.upstream)) := by
  have hinv := create_inv h hkey ip port now
  have hstep := create_cases h key ip port now
  generalize t.create key ip port now = r at hstep hinv ⊢
  cases hstep with
  | exhausted => exact Or.inl ⟨rfl, rfl⟩
  | @created snat P hsnat hunused _ _ _ =>
      have hheap := addSession_heap_iff h (makeSession t.gatewayIp key ip port snat now)
      have hunheld : ∀ q u, t.heap q = some u → u.snatPort ≠ snat := by
        intro q u hu hport
        have huse := (h.owner_iff snat).mpr ⟨q, u, hu, hport⟩
        rw [hunused] at huse
        cases huse
      refine Or.inr ⟨t.nextPtr, makeSession t.gatewayIp key ip port snat now, rfl,
        (hheap _ _).mpr (Or.inl ⟨rfl, rfl⟩), ?_, rfl, ?_⟩
      · rw [Option.eq_none_iff_forall_ne_some]
        rintro ⟨c, b⟩ hsome
        obtain ⟨q, u, hu, hport, -⟩ := (holder_eq_some_iff h.coherent _ c b).mp hsome
        exact hunheld q u hu hport
      · funext q
        apply Option.ext
        rintro ⟨c, b⟩
        rw [holder_eq_some_iff hinv.coherent, Function.update_apply]
        split_ifs with hq
        · constructor
          · rintro ⟨p, s, hs, hport, rfl, rfl⟩
            rcases (hheap p s).mp hs with ⟨-, rfl⟩ | hold
            · rfl
            · exact absurd (hport.trans hq) (hunheld p s hold)
          · intro heq
            obtain ⟨rfl, rfl⟩ := Prod.mk.inj (Option.some.inj heq)
            exact ⟨_, _, (hheap _ _).mpr (Or.inl ⟨rfl, rfl⟩), hq.symm, rfl, rfl⟩
        · rw [holder_eq_some_iff h.coherent]
          constructor
          · rintro ⟨p, s, hs, rfl, rfl, rfl⟩
            rcases (hheap p s).mp hs with ⟨-, rfl⟩ | hold
            · exact absurd rfl hq
            · exact ⟨p, s, hold, rfl, rfl, rfl⟩
          · rintro ⟨p, s, hs, rfl, rfl, rfl⟩
            exact ⟨p, s, (hheap p s).mpr (Or.inr hs), rfl, rfl, rfl⟩

/-- The session that is found for a reply has its port and its upstream. -/
theorem reply_of_lookupReverse {t : SessionTable} (h : t.Inv) {f : Frame} {p : SessionPtr} {s : Session}
    (hfound : t.lookupReverse f.flowKey = some p) (hs : t.heap p = some s) :
    s.snatPort = f.endpoints.2.2 ∧ s.upstream = f.endpoints.1 := by
  obtain ⟨s', hs', hkey⟩ := (h.reverse_iff _ p).mp hfound
  obtain rfl := Option.some.inj (hs.symm.trans hs')
  rw [h.made p s hs] at hkey
  injection hkey with hip _ hport hsnat _
  exact ⟨hsnat, Prod.ext hip hport⟩

/-- The sessions of a client are those of its flow to the VIP. -/
theorem client_eq_iff {t : SessionTable} (h : t.Inv) {vip : VipEndpoint}
    (hown : ∀ p s, t.heap p = some s → Forwarder.OwnSession vip s) {f : Frame}
    (hvip : f.dstIp = vip.ip ∧ f.dstPort = vip.port) {p : SessionPtr} {s : Session}
    (hs : t.heap p = some s) : s.client = f.endpoints.1 ↔ s.forwardKey = f.flowKey := by
  obtain ⟨hip, hport⟩ := hvip
  obtain ⟨hdstIp, hdstPort, hproto, -⟩ := hown p s hs
  have hclient : s.client = (s.forwardKey.srcIp, s.forwardKey.srcPort) := by
    rw [h.made p s hs]
    rfl
  rw [hclient, Frame.endpoints, Frame.flowKey, hip, hport, ← hdstIp, ← hdstPort, ← hproto,
    FlowKey.mk.injEq, Prod.mk.injEq]
  tauto

/-- The ports of the sessions that a sweep at `now` erases. -/
def lapsedPorts (t : SessionTable) (now : UInt64) : List UInt16 :=
  (t.live.filter fun ps => t.isIdle now ps.1).map fun ps => ps.2.snatPort

theorem holder_expire {t : SessionTable} (h : t.Inv) (now : UInt64) :
    (t.expire now).2.holder =
      fun port => if port ∈ t.lapsedPorts now then none else t.holder port := by
  funext port
  apply Option.ext
  rintro ⟨c, b⟩
  rw [holder_eq_some_iff (expire_inv h now).coherent]
  constructor
  · rintro ⟨p, s, hs, rfl, rfl, rfl⟩
    obtain ⟨hs, hidle⟩ := isIdle_of_expire_heap h.coherent hs
    have hnot : s.snatPort ∉ t.lapsedPorts now := by
      intro hmem
      obtain ⟨⟨q, u⟩, hq, hport⟩ := List.mem_map.mp hmem
      obtain ⟨hlive, hidle'⟩ := List.mem_filter.mp hq
      obtain rfl := h.coherent.port_inj q p u s ((mem_live h.coherent q u).mp hlive) hs hport
      rw [hidle] at hidle'
      cases hidle'
    rw [if_neg hnot]
    exact (holder_eq_some_iff h.coherent _ _ _).mpr ⟨p, s, hs, rfl, rfl, rfl⟩
  · intro hsome
    split_ifs at hsome with hmem
    obtain ⟨p, s, hs, rfl, rfl, rfl⟩ := (holder_eq_some_iff h.coherent _ _ _).mp hsome
    refine ⟨p, s, ?_, rfl, rfl, rfl⟩
    rcases t.expire_heap now p with hkept | ⟨-, hidle⟩
    · exact hkept.trans hs
    · exact absurd (List.mem_map.mpr ⟨(p, s), List.mem_filter.mpr
        ⟨(mem_live h.coherent p s).mpr hs, hidle⟩, rfl⟩) hmem

end SessionTable

/-! ## Labels -/

namespace Forwarder

variable {σ : Type} (rte : Rte) (fw : Forwarder σ)

instance (f : Frame) : Decidable (fw.Parses rte f) := inferInstanceAs (Decidable (_ = _))

instance (f : Frame) : Decidable (fw.ToVip rte f) := inferInstanceAs (Decidable (_ ∧ _))

instance (f : Frame) : Decidable (fw.ToGateway rte f) := inferInstanceAs (Decidable (_ ∧ _))

/-- What the treatment of a frame `f` is to a translator, if it ends with `result` and leaves the frame
as `f'`. -/
def labelsOf (f : Frame) (result : HandleResult) (f' : Frame) :
    List (Napt.Label Endpoint Endpoint UInt16) :=
  if result = .drop then []
  else if fw.ToVip rte f then [.out f.endpoints.1 f'.endpoints.2 f'.endpoints.1.2]
  else if fw.ToGateway rte f then [.back f.endpoints.1 f.endpoints.2.2 f'.endpoints.2]
  else []

end Forwarder

/-- The labels of a step of the worker. -/
def Worker.labels (rte : Rte) (w : Worker) :
    Worker.Event → List (Napt.Label Endpoint Endpoint UInt16)
  | .expireSessions now => (w.gw.sessions.lapsedPorts now).map .lapse
  | .handleNext now _ =>
    match w.rx with
    | [] => []
    | m :: _ =>
      let r := (w.gw.handle rte now).run m.frame
      w.gw.forwarder.labelsOf rte m.frame r.val.1.result r.mem
  | _ => []

/-! ## Simulation -/

namespace Forwarder

variable {rte : Rte} {fw : Forwarder UpstreamTable} {st : ForwardState UpstreamTable}

/-- The session part of a client frame: the flow goes on with its port or takes one, or it gets
none and nothing changes. -/
theorem sessionFor_path (h : st.sessions.Inv)
    (hown : ∀ p s, st.sessions.heap p = some s → OwnSession fw.cfg.vip s) {f : Frame}
    (hvip : fw.ToVip rte f) (now : UInt64) :
    ((fw.sessionFor st f.flowKey now).1 = none ∧
        (fw.sessionFor st f.flowKey now).2.sessions.holder = st.sessions.holder) ∨
      ∃ p s, (fw.sessionFor st f.flowKey now).1 = some p ∧
        (fw.sessionFor st f.flowKey now).2.sessions.heap p = some s ∧
        Napt.Step st.sessions.holder (.out f.endpoints.1 s.upstream s.snatPort)
          (fw.sessionFor st f.flowKey now).2.sessions.holder := by
  have hsession := fw.sessionFor_cases h f.flowKey now
  generalize fw.sessionFor st f.flowKey now = r at hsession ⊢
  cases hsession with
  | refused => exact Or.inl ⟨rfl, rfl⟩
  | @found p s hkey hs =>
      refine Or.inr ⟨p, { s with lastActiveMs := now }, rfl, ?_, ?_⟩
      · exact SessionTable.touch_heap_self hs now
      · dsimp only
        rw [SessionTable.holder_touch h]
        refine .keep ((SessionTable.holder_eq_some_iff h.coherent _ _ _).mpr ⟨p, s, hs, rfl, ?_, rfl⟩)
        obtain ⟨s', hs', hkey'⟩ := (h.forward_iff _ p).mp hkey
        obtain rfl := Option.some.inj (hs.symm.trans hs')
        exact (SessionTable.client_eq_iff h hown hvip.2 hs).mpr hkey'
  | @created hkey picker hpicker up hpick hup ps =>
      rcases SessionTable.holder_create h hkey up.ip up.port now with ⟨hnone, hsame⟩ |
        ⟨p, s, hsome, hs, hport, hclient, hholder⟩
      · exact Or.inl ⟨hnone, hsame⟩
      · refine Or.inr ⟨p, s, hsome, hs, ?_⟩
        dsimp only
        rw [hholder, hclient]
        refine .take _ hport ?_
        intro q b' hheld
        obtain ⟨p', s', hs', -, hc, -⟩ := (SessionTable.holder_eq_some_iff h.coherent _ _ _).mp hheld
        have hkey' := (SessionTable.client_eq_iff h hown hvip.2 hs').mp hc
        have hfound := (h.forward_iff _ p').mpr ⟨s', hs', hkey'⟩
        exact nomatch hkey.symm.trans hfound

variable {now : UInt64} {f f' : Frame} {result : HandleResult}

theorem labelsOf_out (hresult : result ≠ .drop) (hvip : fw.ToVip rte f) :
    fw.labelsOf rte f result f' = [.out f.endpoints.1 f'.endpoints.2 f'.endpoints.1.2] := by
  rw [labelsOf, if_neg hresult, if_pos hvip]

theorem labelsOf_back (hresult : result ≠ .drop) (hgw : fw.ToGateway rte f) :
    fw.labelsOf rte f result f' = [.back f.endpoints.1 f.endpoints.2.2 f'.endpoints.2] := by
  rw [labelsOf, if_neg hresult, if_neg fun hvip => hgw.2.1 hvip.2, if_pos hgw]

/-- A reply that is not IPv4 or not for the gateway has no label. -/
theorem labelsOf_other (hvip : ¬fw.ToVip rte f) (hgw : ¬fw.ToGateway rte f) :
    fw.labelsOf rte f result f' = [] := by
  rw [labelsOf, if_neg hvip, if_neg hgw, ite_self]

/-- Handling a frame is a path of the translator. -/
theorem HandleStep.path {st' : ForwardState UpstreamTable} {o : HandleOutcome}
    (hstep : fw.HandleStep rte st now f o st' f') (h : st.sessions.Inv)
    (hown : ∀ p s, st.sessions.heap p = some s → OwnSession fw.cfg.vip s) :
    Path Napt.Step st.sessions.holder (fw.labelsOf rte f o.result f') st'.sessions.holder := by
  cases hstep with
  | ignored => exact .nil _
  | unknown => exact .nil _
  | refused hvip hsess =>
      rcases sessionFor_path h hown hvip now with ⟨-, hsame⟩ | ⟨p, s, hsome, -⟩
      · rw [hsame]
        exact .nil _
      · exact nomatch hsess.symm.trans hsome
  | @forward hvip p s hsess hs hkey =>
      rcases sessionFor_path h hown hvip now with ⟨hnothing, -⟩ | ⟨p', s', hsome, hs', hmove⟩
      · exact nomatch hsess.symm.trans hnothing
      · obtain rfl := Option.some.inj (hsess.symm.trans hsome)
        obtain rfl := Option.some.inj (hs.symm.trans hs')
        have hsent : HandleResult.txForward ≠ .drop := by decide
        rw [labelsOf_out (sendOutcome_ne_drop _ _ hsent) hvip, forwardNatted,
          endpoints_rewritten hvip.1]
        exact .single hmove
  | @reverse hgw p s hfound hs =>
      have hsent : HandleResult.txReverse ≠ .drop := by decide
      rw [labelsOf_back (sendOutcome_ne_drop _ _ hsent) hgw, reverseNatted,
        endpoints_rewritten hgw.1]
      dsimp only
      rw [SessionTable.holder_touch h]
      obtain ⟨hport, hup⟩ := SessionTable.reply_of_lookupReverse h hfound hs
      exact .single (.back ((SessionTable.holder_eq_some_iff h.coherent _ _ _).mpr
        ⟨p, s, hs, hport, rfl, hup⟩))

end Forwarder

namespace Worker

variable (rte : Rte) {cfg : ServiceConfig} {w : Worker}

/-- Handling a frame in the gateway is a path of the translator. -/
theorem path_handle (h : w.Inv cfg) (now : UInt64) (f : Frame) :
    Path Napt.Step w.gw.sessions.holder
      (w.gw.forwarder.labelsOf rte f ((w.gw.handle rte now).run f).val.1.result
        ((w.gw.handle rte now).run f).mem)
      ((w.gw.handle rte now).run f).val.2.sessions.holder := by
  have hstep := w.gw.handle_cases rte h.sessions now f
  generalize (w.gw.handle rte now).run f = out at hstep ⊢
  obtain ⟨⟨o, g⟩, f', log⟩ := out
  dsimp only at hstep ⊢
  have hnone : ¬f.HasType etherTypeIpv4 → ∀ result, w.gw.forwarder.labelsOf rte f result f' = [] :=
    fun hnot _ => Forwarder.labelsOf_other (fun hvip => hnot hvip.1.hasType)
      fun hgw => hnot hgw.1.hasType
  cases hstep with
  | other hnot =>
      rw [hnone hnot]
      exact .nil _
  | arp hnot _ =>
      rw [hnone hnot]
      exact .nil _
  | ipv4 _ hfwd => exact hfwd.path h.sessions fun p s hs => h.vip.symm ▸ h.own p s hs

/-- Every step of the worker is a path of the translator. -/
theorem path_step (w : Worker) (e : Event) (h : w.Inv cfg) :
    Path Napt.Step w.gw.sessions.holder (w.labels rte e) (w.step rte e).gw.sessions.holder := by
  cases e with
  | expireSessions now =>
      show Path Napt.Step _ _ (w.gw.sessions.expire now).2.holder
      rw [SessionTable.holder_expire h.sessions]
      exact Napt.path_lapses _ _
  | pollControl update => cases update <;> exact .nil _
  | handleNext now buf =>
      cases hrx : w.rx with
      | nil =>
          simp only [labels, step, hrx]
          exact .nil _
      | cons m rest =>
          rw [step_handleNext_sessions rte hrx now buf]
          simp only [labels, hrx]
          exact path_handle rte h now m.frame
  | expireNeighbors now => exact .nil _
  | expirePending now => exact .nil _
  | setUpstreams endpoints => exact .nil _
  | setPolicy policy => exact .nil _
  | recvBurst frames => exact .nil _
  | finishBurst accepted => exact .nil _

/-- What a translator does in a run of the worker. -/
def trace (w : Worker) (es : List Event) : List (Napt.Label Endpoint Endpoint UInt16) :=
  outputs (step rte) (labels rte) w es

/-- Every run of the worker is a path of the translator. -/
theorem trace_path (h : w.Inv cfg) (es : List Event) :
    Path Napt.Step w.gw.sessions.holder (trace rte w es) (run (step rte) w es).gw.sessions.holder :=
  run_path (step_inv rte) (path_step rte) h es

theorem start_holder (cfg : ServiceConfig) (shm : Option CpUpdate) (nicMac : Option EtherAddr) :
    (start cfg shm nicMac).gw.sessions.holder = fun _ => none := by
  cases nicMac <;> rfl

/-- After a run, a client holds a port if it was the last to use it and the port has not lapsed. -/
theorem holder_iff_trace (cfg : ServiceConfig) (shm : Option CpUpdate) (nicMac : Option EtherAddr)
    {es : List Event} (hw : run (step rte) (start cfg shm nicMac) es = w) (port : UInt16)
    (c b : Endpoint) :
    w.gw.sessions.holder port = some (c, b) ↔ ∃ later, MostRecent (Napt.use port) (some (c, b)) later
      (trace rte (start cfg shm nicMac) es) := by
  have hpath := trace_path rte (start_inv cfg shm nicMac) es
  rw [start_holder, hw] at hpath
  exact Napt.holder_iff hpath port c b

/-- Every run of the gateway is a path of the translator, from the one in which no port is held to the
one that its session table stands for. -/
theorem napt_refines (cfg : ServiceConfig) (shm : Option CpUpdate) (nicMac : Option EtherAddr)
    (es : List Event) :
    Path Napt.Step (fun _ => none) (trace rte (start cfg shm nicMac) es)
      (run (step rte) (start cfg shm nicMac) es).gw.sessions.holder := by
  rw [← start_holder cfg shm nicMac]
  exact trace_path rte (start_inv cfg shm nicMac) es

/-! ## Client frames -/

/-- The frames of a client that holds a port leave from it, to the endpoint that it is held for; a
client that holds none gets a port that nobody holds, if its frame is not dropped. -/
theorem client_frame_port (cfg : ServiceConfig) (shm : Option CpUpdate) (nicMac : Option EtherAddr)
    (es : List Event) {w : Worker} (hw : run (step rte) (start cfg shm nicMac) es = w) {f : Frame}
    (hvip : w.gw.forwarder.ToVip rte f) (now : UInt64) :
    (∀ port b, (∃ later, MostRecent (Napt.use port) (some ((f.srcIp, f.srcPort), b)) later
        (trace rte (start cfg shm nicMac) es)) →
      ((w.gw.handle rte now).run f).val.1.result ≠ .drop ∧
        ((w.gw.handle rte now).run f).mem.endpoints = ((cfg.gatewayIp, port), b)) ∧
    ((∀ port b later, ¬MostRecent (Napt.use port) (some ((f.srcIp, f.srcPort), b)) later
        (trace rte (start cfg shm nicMac) es)) →
      ((w.gw.handle rte now).run f).val.1.result ≠ .drop →
      ∃ port b, ((w.gw.handle rte now).run f).mem.endpoints = ((cfg.gatewayIp, port), b) ∧
        ∀ c b' later, ¬MostRecent (Napt.use port) (some (c, b')) later
          (trace rte (start cfg shm nicMac) es)) := by
  have h : w.Inv cfg := hw ▸ run_invariant (step_inv rte) (start_inv cfg shm nicMac) es
  have hown : ∀ p s, w.gw.sessions.heap p = some s → Forwarder.OwnSession w.gw.fcfg.vip s :=
    fun p s hs => h.vip.symm ▸ h.own p s hs
  constructor
  · intro port b hlast
    rw [← holder_iff_trace rte cfg shm nicMac hw,
      SessionTable.holder_eq_some_iff h.sessions.coherent] at hlast
    obtain ⟨p, s, hs, rfl, hclient, rfl⟩ := hlast
    have hkey := (SessionTable.client_eq_iff h.sessions hown hvip.2 hs).mp hclient
    exact forward_of_session h hvip hs hkey now
  · intro hnone htaken
    obtain ⟨-, s, -, -, -, -, hends⟩ := forward_of_toVip h hvip htaken
    refine ⟨s.snatPort, s.upstream, hends, ?_⟩
    -- the label of the frame is a move that takes a port
    have hpath := path_handle rte h now f
    rw [Forwarder.labelsOf_out htaken hvip, hends] at hpath
    intro c b' later hlast
    have hheld := (holder_iff_trace rte cfg shm nicMac hw _ _ _).mpr ⟨later, hlast⟩
    rcases hpath.of_single.holder_of_out with hself | hfree
    · obtain ⟨later', hlast'⟩ := (holder_iff_trace rte cfg shm nicMac hw _ _ _).mp hself
      exact hnone _ _ later' hlast'
    · exact nomatch hfree.symm.trans hheld

/-- The second frame of the lab client leaves from the port of the first one. -/
theorem client_frame_port_lab :
    ((((labReceived.step Rte.dpdk (.handleNext 0 none)).gw.handle Rte.dpdk 7).run
      labClientFrame).mem.endpoints = ((ServiceConfig.lab.gatewayIp, 10000),
        (ServiceConfig.lab.upstream0.ip, 53))) := by
  have htrace : trace Rte.dpdk (start .lab none none)
      [.recvBurst [labClientFrame], .handleNext 0 none] =
        [] ++ [.out (labClientFrame.srcIp, labClientFrame.srcPort)
          (ServiceConfig.lab.upstream0.ip, 53) 10000] := by
    decide +kernel
  have hkept := (client_frame_port Rte.dpdk .lab none none
    [.recvBurst [labClientFrame], .handleNext 0 none] rfl (f := labClientFrame) (by decide +kernel)
    7).1 10000 (ServiceConfig.lab.upstream0.ip, 53)
  exact (hkept ⟨[], [], _, htrace, rfl, by simp⟩).2

/-! ## Replies -/

/-- A frame for the gateway is translated for the session that it is a reply to, or dropped. -/
theorem handle_toGateway (h : w.Inv cfg) {r : Frame} (hgw : w.gw.forwarder.ToGateway rte r)
    (now : UInt64) :
    (((w.gw.handle rte now).run r).val.1.result = .drop ∧
        w.gw.sessions.lookupReverse r.flowKey = none) ∨
      ∃ p s, w.gw.sessions.lookupReverse r.flowKey = some p ∧ w.gw.sessions.heap p = some s ∧
        ((w.gw.handle rte now).run r).val.1.result ≠ .drop ∧
        ((w.gw.handle rte now).run r).mem.endpoints = ((cfg.vip.ip, cfg.vip.port), s.client) := by
  have hstep := w.gw.handle_cases rte h.sessions now r
  generalize (w.gw.handle rte now).run r = out at hstep ⊢
  obtain ⟨⟨o, g⟩, f', log⟩ := out
  dsimp only at hstep ⊢
  cases hstep with
  | other hnot => exact absurd hgw.1.hasType hnot
  | arp hnot _ => exact absurd hgw.1.hasType hnot
  | ipv4 _ hfwd =>
      cases hfwd with
      | ignored _ hnot => exact absurd hgw hnot
      | refused hvip _ => exact absurd hvip.2 hgw.2.1
      | forward hvip _ _ _ => exact absurd hvip.2 hgw.2.1
      | unknown _ hnone => exact Or.inl ⟨rfl, hnone⟩
      | @reverse hgw' p s hfound hs =>
          have hsent : HandleResult.txReverse ≠ .drop := by decide
          refine Or.inr ⟨p, s, hfound, hs, Forwarder.sendOutcome_ne_drop _ _ hsent, ?_⟩
          rw [Forwarder.reverseNatted, Forwarder.endpoints_rewritten hgw'.1]
          exact Prod.ext (vip_of_own h hs) rfl

/-- After every run, what becomes of a frame for the gateway is determined by the traffic so far: it
goes from the VIP to the client `c` if and only if the port that it is addressed to was used last by
`c`, for a frame to the endpoint that it comes from, and has not lapsed since. -/
theorem reply_goes_to_last_user (cfg : ServiceConfig) (shm : Option CpUpdate)
    (nicMac : Option EtherAddr) (es : List Event) {w : Worker}
    (hw : run (step rte) (start cfg shm nicMac) es = w) {r : Frame}
    (hgw : w.gw.forwarder.ToGateway rte r) (now : UInt64) (c : Endpoint) :
    (((w.gw.handle rte now).run r).val.1.result ≠ .drop ∧
        ((w.gw.handle rte now).run r).mem.endpoints = ((cfg.vip.ip, cfg.vip.port), c)) ↔
      ∃ later, MostRecent (Napt.use r.dstPort) (some (c, (r.srcIp, r.srcPort))) later
        (trace rte (start cfg shm nicMac) es) := by
  have h : w.Inv cfg := hw ▸ run_invariant (step_inv rte) (start_inv cfg shm nicMac) es
  rw [← holder_iff_trace rte cfg shm nicMac hw,
    SessionTable.holder_eq_some_iff h.sessions.coherent]
  constructor
  · rintro ⟨hresult, hends⟩
    rcases handle_toGateway rte h hgw now with ⟨hdrop, -⟩ | ⟨p, s, hfound, hs, -, hsent⟩
    · exact absurd hdrop hresult
    · obtain ⟨hport, hup⟩ := SessionTable.reply_of_lookupReverse h.sessions hfound hs
      rw [hsent] at hends
      exact ⟨p, s, hs, hport, (Prod.mk.inj hends).2, hup⟩
  · rintro ⟨p, s, hs, hport, rfl, hup⟩
    obtain ⟨hip, hport'⟩ := Prod.mk.inj hup
    have hdst : r.dstIp = cfg.gatewayIp := hgw.2.2.trans h.gatewayIp
    have hfound := (matchesReply_iff h hs hdst).mpr ⟨hip.symm, hport'.symm, hport.symm⟩
    rcases handle_toGateway rte h hgw now with ⟨-, hnone⟩ | ⟨p', s', hfound', hs', hresult, hsent⟩
    · exact nomatch hfound.symm.trans hnone
    · obtain rfl := Option.some.inj (hfound.symm.trans hfound')
      obtain rfl := Option.some.inj (hs.symm.trans hs')
      exact ⟨hresult, hsent⟩

/-- The reply to the first frame of the lab goes to its client, since the port was last used for it. -/
theorem reply_goes_to_last_user_lab :
    ∃ later, MostRecent (Napt.use 10000)
      (some ((labClientFrame.srcIp, 4000), (labReplyFrame.srcIp, 53))) later
      (trace Rte.dpdk (start .lab none none) [.recvBurst [labClientFrame], .handleNext 0 none]) :=
  (reply_goes_to_last_user Rte.dpdk .lab none none [.recvBurst [labClientFrame], .handleNext 0 none]
    rfl (r := labReplyFrame) (by decide +kernel) 5 _).mp (by decide +kernel)

end Worker

end VioletGateway
