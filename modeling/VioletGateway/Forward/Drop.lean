import VioletGateway.Forward.Handle
import VioletGateway.Support.Run

/-!
# Dropped packets

A packet that `Forwarder::handle` drops leaves no trace (`handle_drop`): the bytes that checksum
verification clears are put back, a session is touched only if the packet goes on, and a failed port
allocation takes the cursor all the way round its range.

Of the session table this needs the invariant of the port pool only, which every sequence of calls
keeps, whatever their arguments (`pool_inv_of_reaches`).
-/

set_option autoImplicit false

namespace VioletGateway

open Support

/-! ## The session table -/

namespace SessionTable

/-- A creation that fails leaves the table as it was. -/
theorem create_none {t : SessionTable} (hP : t.pool.Inv) {key : FlowKey} {ip : UInt32}
    {port : UInt16} {now : UInt64} (h : (t.create key ip port now).1 = none) :
    (t.create key ip port now).2 = t := by
  rw [create] at h ⊢
  dsimp only at h ⊢
  split_ifs at h ⊢ with hzero
  rw [SnatPool.allocSnatPort_eq_zero hP hzero]

/-- Touching a pointer that is not allocated does nothing. -/
theorem touch_of_heap_none {t : SessionTable} {p : SessionPtr} {now : UInt64}
    (h : (t.touch (some p) now).heap p = none) : t.touch (some p) now = t := by
  have hnone : t.heap p = none := by
    cases hs : t.heap p with
    | none => rfl
    | some s => cases (touch_heap_self hs now).symm.trans h
  unfold touch
  dsimp only
  rw [hnone, Option.map_none, ← hnone, Function.update_eq_self]

theorem eraseSession_pool_inv {t : SessionTable} (h : t.pool.Inv) (p : SessionPtr) :
    (t.eraseSession p).pool.Inv := by
  rw [eraseSession]
  split
  · exact h
  · exact SnatPool.freeSnatPort_inv h _

theorem create_pool_inv {t : SessionTable} (h : t.pool.Inv) (key : FlowKey) (ip : UInt32)
    (port : UInt16) (now : UInt64) : (t.create key ip port now).2.pool.Inv := by
  have halloc : t.pool.allocSnatPort.2.Inv := by
    have hspec := SnatPool.allocSnatPort_spec h
    generalize t.pool.allocSnatPort = r at hspec
    cases hspec with
    | exhausted _ _ _ _ hinv => exact hinv
    | taken _ _ _ _ hinv => exact hinv
  rw [create]
  dsimp only
  split_ifs <;> exact halloc

/-- Every call keeps the invariant of the pool, also one that the callers do not make. -/
theorem call_pool_inv (t : SessionTable) (c : Call) (h : t.pool.Inv) : (c.apply t).pool.Inv := by
  cases c with
  | lookupForward key => exact h
  | lookupReverse key => exact h
  | touch o now =>
      show (t.touch o now).pool.Inv
      rw [touch_pool]
      exact h
  | expire now =>
      exact expireLoop_invariant (P := fun u => u.pool.Inv)
        (fun _ p _ hu => eraseSession_pool_inv hu p) _ 0 0 h
  | create key ip port now => exact create_pool_inv h key ip port now

theorem pool_inv_of_reaches {t u : SessionTable} (h : t.pool.Inv)
    (hr : Support.Reaches Call.apply t u) : u.pool.Inv :=
  hr.invariant call_pool_inv h

end SessionTable

/-! ## The forwarder -/

namespace Forwarder

variable {σ : Type} (rte : Rte) (fw : Forwarder σ)

/-- The session part changes the table only if it finds or creates a session. -/
theorem sessionFor_none {st : ForwardState σ} (hP : st.sessions.pool.Inv) {key : FlowKey}
    {now : UInt64}
    (h : (fw.sessionFor st key now).1.bind (fw.sessionFor st key now).2.sessions.heap = none) :
    (fw.sessionFor st key now).2.sessions = st.sessions := by
  rw [sessionFor] at h ⊢
  cases hkey : st.sessions.lookupForward key with
  | some p =>
      rw [hkey] at h
      exact SessionTable.touch_of_heap_none h
  | none =>
      rw [hkey] at h
      cases hpicker : fw.picker with
      | none => rfl
      | some picker =>
          rw [hpicker] at h
          cases hpick : (picker key st.pickerState).1 with
          | none => simp only [hpick]
          | some up =>
              simp only [hpick] at h ⊢
              split_ifs at h ⊢ with hzero
              · rfl
              · -- the session is created, or the ports are used up
                cases hcreate : (st.sessions.create key up.ip up.port now).1 with
                | none => exact SessionTable.create_none hP hcreate
                | some p =>
                    rw [hcreate, Option.bind_some] at h
                    obtain ⟨snat, hs⟩ := SessionTable.create_some_session hcreate
                    cases h.symm.trans hs

/-- Frame and session table are those before. -/
def NoTrace (st : ForwardState σ) (f : Frame) (r : Res Frame Access (HandleOutcome × ForwardState σ)) :
    Prop :=
  r.mem = f ∧ r.val.2.sessions = st.sessions

theorem handleForward_drop {st : ForwardState σ} (hP : st.sessions.pool.Inv) {f : Frame}
    {now : UInt64} (h : ((fw.handleForward rte st f.view now).run f).val.1.result = .drop) :
    NoTrace st f ((fw.handleForward rte st f.view now).run f) := by
  unfold NoTrace
  unfold handleForward at h ⊢
  simp only [Traced.bind_val, Traced.bind_mem, flowKeyFromView_val, flowKeyFromView_mem] at h ⊢
  cases hs : (fw.sessionFor st f.flowKey now).1.bind
      (fw.sessionFor st f.flowKey now).2.sessions.heap with
  | none => exact ⟨rfl, fw.sessionFor_none hP hs⟩
  | some s =>
      -- a packet with a session is sent or has to wait
      simp only [hs, Traced.bind_val, Traced.pure_val, sendVia_val] at h
      exact absurd h (sendOutcome_ne_drop _ _ nofun)

theorem handleReverse_drop {st : ForwardState σ} {f : Frame} {now : UInt64}
    (h : ((fw.handleReverse rte st f.view now).run f).val.1.result = .drop) :
    NoTrace st f ((fw.handleReverse rte st f.view now).run f) := by
  unfold NoTrace
  unfold handleReverse at h ⊢
  simp only [Traced.bind_val, Traced.bind_mem, flowKeyFromView_val, flowKeyFromView_mem] at h ⊢
  cases hp : st.sessions.lookupReverse f.flowKey with
  | none => exact ⟨rfl, rfl⟩
  | some p =>
      simp only [hp] at h ⊢
      cases hs : (st.sessions.touch (some p) now).heap p with
      | none => exact ⟨rfl, SessionTable.touch_of_heap_none hs⟩
      | some s =>
          simp only [hs, Traced.bind_val, Traced.pure_val, sendVia_val] at h
          exact absurd h (sendOutcome_ne_drop _ _ nofun)

theorem handle_noTrace {st : ForwardState σ} (hP : st.sessions.pool.Inv) {f : Frame} {now : UInt64}
    (h : ((fw.handle rte st now).run f).val.1.result = .drop) :
    NoTrace st f ((fw.handle rte st now).run f) := by
  rw [handle] at h ⊢
  rw [NoTrace]
  simp only [Traced.bind_val, Traced.bind_mem, parseUdpIpv4_mem] at h ⊢
  cases hparse : ((parseUdpIpv4 rte fw.cfg.verifyChecksum).run f).val with
  | error e => exact ⟨rfl, rfl⟩
  | ok v =>
      obtain rfl := view_of_parseUdpIpv4 hparse
      rw [hparse] at h
      change ((fw.dispatch rte st now f).run f).val.1.result = .drop at h
      change NoTrace st f ((fw.dispatch rte st now f).run f)
      rw [dispatch] at h ⊢
      split_ifs at h ⊢
      · exact fw.handleForward_drop rte hP h
      · exact fw.handleReverse_drop rte h
      · exact ⟨rfl, rfl⟩

/-- Whatever the configuration, the picker and the frame, and in every state of the session table that
calls reach from a constructed table with `snat_port_begin >= 1`: a packet that is dropped leaves the
frame and the session table exactly as they were. -/
theorem handle_drop (gw : UInt32) (idle : UInt64) (b e : UInt16) (hb : 1 ≤ b.toNat)
    {t : SessionTable} (ht : Support.Reaches SessionTable.Call.apply (.new gw idle b e) t)
    (pickerState : σ) (neighbors : Option NeighborTable) (now : UInt64) (f : Frame)
    (hdrop : ((fw.handle rte ⟨t, pickerState, neighbors⟩ now).run f).val.1.result = .drop) :
    ((fw.handle rte ⟨t, pickerState, neighbors⟩ now).run f).mem = f ∧
      ((fw.handle rte ⟨t, pickerState, neighbors⟩ now).run f).val.2.sessions = t := by
  have hP : (⟨t, pickerState, neighbors⟩ : ForwardState σ).sessions.pool.Inv :=
    SessionTable.pool_inv_of_reaches (SnatPool.new_inv b e hb) ht
  exact fw.handle_noTrace rte hP hdrop

/-- A forwarder that verifies checksums, with one upstream. -/
def labVerifying : Forwarder Unit where
  cfg :=
    { vip := { ip := Config.ipv4From Config.vipIpOctets, port := Config.vipPort }
      gatewayIp := Config.ipv4From Config.gatewayIpOctets
      verifyChecksum := true }
  picker := some fun _ u => (some ⟨Config.ipv4From Config.upstream0IpOctets, 53⟩, u)

/-- A table with two ports, both taken. -/
def labFullTable : SessionTable :=
  run SessionTable.Call.apply (.new (Config.ipv4From Config.gatewayIpOctets) 60000 10000 10002)
    [.create { srcPort := 1 } 1 53 0, .create { srcPort := 2 } 1 53 0]

/-- A client frame with a valid header checksum, for which no port is left. -/
def labRefusedFrame : Frame := .ofBytes
  ([2, 0, 0, 0, 0, 1] ++ [2, 0, 0, 0, 0, 9] ++ [0x08, 0x00] ++
    [0x45, 0, 0, 28, 0, 0, 0, 0, 64, 17, 174, 188] ++ [10, 0, 0, 9] ++ [192, 168, 1, 100] ++
    beBytes 2 4000 ++ beBytes 2 53 ++ beBytes 2 8 ++ [0, 0])

/-- The frame parses, and is dropped when the ports are used up. -/
theorem handle_drop_exhausted :
    ((parseUdpIpv4 Rte.dpdk true).run labRefusedFrame).val = .ok labRefusedFrame.view ∧
      ((labVerifying.handle Rte.dpdk ⟨labFullTable, (), none⟩ 5).run labRefusedFrame).mem =
        labRefusedFrame ∧
      ((labVerifying.handle Rte.dpdk ⟨labFullTable, (), none⟩ 5).run labRefusedFrame).val.2.sessions =
        labFullTable := by
  refine ⟨by decide +kernel, ?_⟩
  exact handle_drop Rte.dpdk labVerifying _ 60000 10000 10002 (by decide) ⟨_, rfl⟩ () none 5
    labRefusedFrame (by decide +kernel)

end Forwarder

end VioletGateway
