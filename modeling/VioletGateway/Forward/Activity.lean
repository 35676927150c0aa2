import VioletGateway.Forward.Handle
import VioletGateway.Session.Expire

/-!
# Sessions that are in use

A packet that the forwarder accepts, in either direction, makes its session active at this time
(`handle_accepted`), and a session is not removed before the idle timeout has passed since then. What
`expire` removes are exactly the sessions for which it has (`expire_exact`).
-/

set_option autoImplicit false

namespace VioletGateway

open Support

namespace Forwarder

variable {σ : Type} (rte : Rte) (fw : Forwarder σ)

/-- The table after a packet was accepted at `now`: the packet belongs to a session that is active
now. -/
structure Accepted (now : UInt64) (f : Frame) (t t' : SessionTable) (p : SessionPtr) : Prop where
  coherent : t'.Coherent
  idleTimeoutMs : t'.idleTimeoutMs = t.idleTimeoutMs
  session : ∃ s, t'.heap p = some s ∧ s.lastActiveMs = now ∧
    (s.forwardKey = f.flowKey ∨ s.reverseKey = f.flowKey)

theorem accepted_touch {t : SessionTable} (h : t.Coherent) {f : Frame} {p : SessionPtr} {s : Session}
    (hs : t.heap p = some s) (hkey : s.forwardKey = f.flowKey ∨ s.reverseKey = f.flowKey)
    (now : UInt64) : Accepted now f t (t.touch (some p) now) p where
  coherent := SessionTable.touch_coherent h (some p) now
  idleTimeoutMs := rfl
  session := ⟨_, SessionTable.touch_heap_self hs now, rfl, hkey⟩

/-- The session that the session part returns is active now. -/
theorem sessionFor_accepted {st : ForwardState σ} (h : st.sessions.Coherent) {f : Frame}
    {now : UInt64} {p : SessionPtr} (hp : (fw.sessionFor st f.flowKey now).1 = some p) :
    Accepted now f st.sessions (fw.sessionFor st f.flowKey now).2.sessions p := by
  rw [sessionFor] at hp ⊢
  cases hkey : st.sessions.lookupForward f.flowKey with
  | some q =>
      rw [hkey] at hp
      obtain rfl := Option.some.inj hp
      obtain ⟨s, hs, hk⟩ := (h.forward_iff _ q).mp hkey
      exact accepted_touch h hs (Or.inl hk) now
  | none =>
      rw [hkey] at hp
      cases hpicker : fw.picker with
      | none =>
          rw [hpicker] at hp
          cases hp
      | some picker =>
          rw [hpicker] at hp
          cases hpick : (picker f.flowKey st.pickerState).1 with
          | none =>
              simp only [hpick] at hp
              cases hp
          | some up =>
              simp only [hpick] at hp ⊢
              split_ifs at hp ⊢
              refine ⟨SessionTable.create_coherent h hkey up.ip up.port now,
                SessionTable.create_idleTimeoutMs _ _ _ _ _, ?_⟩
              obtain ⟨snat, hs⟩ := SessionTable.create_some_session hp
              exact ⟨_, hs, rfl, Or.inl rfl⟩

theorem handleForward_accepted {st : ForwardState σ} (h : st.sessions.Coherent) {f : Frame}
    {now : UInt64} (hacc : ((fw.handleForward rte st f.view now).run f).val.1.result ≠ .drop) :
    ∃ p, Accepted now f st.sessions
      ((fw.handleForward rte st f.view now).run f).val.2.sessions p := by
  rw [handleForward] at hacc ⊢
  simp only [Traced.bind_val, flowKeyFromView_val, flowKeyFromView_mem] at hacc ⊢
  cases hs : (fw.sessionFor st f.flowKey now).1.bind
      (fw.sessionFor st f.flowKey now).2.sessions.heap with
  | none =>
      rw [hs] at hacc
      exact absurd rfl hacc
  | some s =>
      obtain ⟨p, hp, -⟩ := Option.bind_eq_some_iff.mp hs
      exact ⟨p, fw.sessionFor_accepted h hp⟩

theorem handleReverse_accepted {st : ForwardState σ} (h : st.sessions.Coherent) {f : Frame}
    {now : UInt64} (hacc : ((fw.handleReverse rte st f.view now).run f).val.1.result ≠ .drop) :
    ∃ p, Accepted now f st.sessions
      ((fw.handleReverse rte st f.view now).run f).val.2.sessions p := by
  rw [handleReverse] at hacc ⊢
  simp only [Traced.bind_val, flowKeyFromView_val, flowKeyFromView_mem] at hacc ⊢
  cases hp : st.sessions.lookupReverse f.flowKey with
  | none =>
      rw [hp] at hacc
      exact absurd rfl hacc
  | some p =>
      obtain ⟨s, hs, hk⟩ := (h.reverse_iff _ p).mp hp
      have htouch := SessionTable.touch_heap_self hs now
      refine ⟨p, ?_⟩
      simp only [htouch]
      exact accepted_touch h hs (Or.inr hk) now

/-- A packet that is not dropped makes its session active. -/
theorem handle_accepted {st : ForwardState σ} (h : st.sessions.Coherent) {f : Frame} {now : UInt64}
    (hacc : ((fw.handle rte st now).run f).val.1.result ≠ .drop) :
    ∃ p, Accepted now f st.sessions ((fw.handle rte st now).run f).val.2.sessions p := by
  rw [handle] at hacc ⊢
  simp only [Traced.bind_val, parseUdpIpv4_mem] at hacc ⊢
  cases hparse : ((parseUdpIpv4 rte fw.cfg.verifyChecksum).run f).val with
  | error e =>
      rw [hparse] at hacc
      exact absurd rfl hacc
  | ok v =>
      obtain rfl := view_of_parseUdpIpv4 hparse
      rw [hparse] at hacc
      change ((fw.dispatch rte st now f).run f).val.1.result ≠ .drop at hacc
      change ∃ p, Accepted now f st.sessions ((fw.dispatch rte st now f).run f).val.2.sessions p
      rw [dispatch] at hacc ⊢
      split_ifs at hacc ⊢
      · exact fw.handleForward_accepted rte h hacc
      · exact fw.handleReverse_accepted rte h hacc
      · exact absurd rfl hacc

end Forwarder

namespace SessionTable

/-- In every state that allowed calls reach from a constructed table: `expire` removes exactly the idle
sessions, provided that none was active later than now. And a session that has accepted a packet is
still there after any further allowed calls in the order of the clock, as long as less than the idle
timeout has passed. -/
theorem expire_exact (gw : UInt32) (idle : UInt64) (b e : UInt16) {t : SessionTable}
    (ht : Reaches (new gw idle b e) t) :
    (∀ now, (∀ p s, t.heap p = some s → s.lastActiveMs ≤ now) → t.Expires now (t.expire now)) ∧
      ∀ {σ : Type} (rte : Rte) (fw : Forwarder σ) (pickerState : σ) (neighbors : Option NeighborTable)
        (since : UInt64) (f : Frame) {r : Res Frame Access (HandleOutcome × ForwardState σ)},
        (fw.handle rte ⟨t, pickerState, neighbors⟩ since).run f = r → r.val.1.result ≠ .drop →
        ∃ p s, r.val.2.sessions.heap p = some s ∧
          (s.forwardKey = f.flowKey ∨ s.reverseKey = f.flowKey) ∧
          ∀ cs, Along Call.apply Call.Allowed r.val.2.sessions cs →
            (since :: cs.filterMap Call.time).Pairwise (· ≤ ·) →
            (∀ now ∈ cs.filterMap Call.time, now.toNat < since.toNat + t.idleTimeoutMs.toNat) →
            p ∈ (run Call.apply r.val.2.sessions cs).sessions := by
  have h := coherent_of_reaches (new_coherent gw idle b e) ht
  refine ⟨fun now hnow => expire_expires h hnow, ?_⟩
  rintro σ rte fw pickerState neighbors since f r rfl hacc
  have hst : (⟨t, pickerState, neighbors⟩ : ForwardState σ).sessions.Coherent := h
  obtain ⟨p, hp⟩ := fw.handle_accepted rte hst hacc
  obtain ⟨s, hs, hactive, hkey⟩ := hp.session
  refine ⟨p, s, hs, hkey, ?_⟩
  intro cs hallowed hclock hsoon
  rw [← hp.idleTimeoutMs] at hsoon
  refine run_activeIn cs hp.coherent ⟨s, hs, ?_, ?_⟩ hallowed hclock hsoon
  · rw [hactive]
    exact UInt64.le_refl _
  · rw [hactive]
    exact UInt64.le_refl _

/-- Two sessions of one upstream, created at 0 and at 50000. -/
def labTable : SessionTable :=
  run Call.apply (new (Config.ipv4From Config.gatewayIpOctets) 60000 10000 10002)
    [.create { srcPort := 1 } (Config.ipv4From Config.upstream0IpOctets) 53 0,
      .create { srcPort := 2 } (Config.ipv4From Config.upstream0IpOctets) 53 50000]

/-- The upstream answers on the second session. -/
def labAnswer : Frame := .udp [10, 0, 0, 1] [192, 168, 1, 10] 53 10001

/-- At 70000 the first session is removed; the second one, on which a packet arrives, is still there at
129999. -/
theorem expire_exact_lab :
    labTable.Expires 70000 (labTable.expire 70000) ∧ (labTable.expire 70000).1 = 1 ∧
      ∃ p, p ∈ (run Call.apply (((Forwarder.mk (σ := Unit)
        { gatewayIp := Config.ipv4From Config.gatewayIpOctets } none).handle Rte.dpdk
          ⟨labTable, (), none⟩ 70000).run labAnswer).val.2.sessions [.expire 129999]).sessions := by
  have hmissing : ((new (Config.ipv4From Config.gatewayIpOctets) 60000 10000 10002).create
      { srcPort := 1 } (Config.ipv4From Config.upstream0IpOctets) 53 0).2.lookupForward
        { srcPort := 2 } = none := by
    decide +kernel
  have ht : Reaches (new (Config.ipv4From Config.gatewayIpOctets) 60000 10000 10002) labTable :=
    .call (.create _ _ _ _) (.call (.create _ _ _ _) .refl rfl) hmissing
  obtain ⟨hexpire, hkeep⟩ := expire_exact _ 60000 10000 10002 ht
  refine ⟨hexpire 70000 ?_, by decide +kernel, ?_⟩
  · intro p s hs
    have hp := ((coherent_of_reaches (new_coherent _ 60000 10000 10002) ht).live_iff p).mpr ⟨s, hs⟩
    have hall : ∀ p ∈ labTable.sessions, ∀ s ∈ labTable.heap p, s.lastActiveMs ≤ 70000 := by
      decide +kernel
    exact hall p hp s hs
  · obtain ⟨p, s, -, -, hstays⟩ := hkeep Rte.dpdk
      ⟨{ gatewayIp := Config.ipv4From Config.gatewayIpOctets }, none⟩ () none 70000 labAnswer rfl
      (by decide +kernel)
    refine ⟨p, hstays [.expire 129999] ⟨trivial, trivial⟩ (by decide) ?_⟩
    intro now hnow
    have hlast : now = 129999 := List.mem_singleton.mp hnow
    rw [hlast]
    decide +kernel

end SessionTable

end VioletGateway
