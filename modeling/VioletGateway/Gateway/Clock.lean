import VioletGateway.Gateway.Stranded
import VioletGateway.Session.Expire

/-!
# Time differences

All timeouts of the gateway are tests of an unsigned difference `now_ms - stored`. If the clock does
not run backwards, every stored time is a clock reading of the past (`Stamped`), so no difference
wraps, and what is dropped is really overdue (`times_do_not_wrap`).
-/

set_option autoImplicit false

namespace VioletGateway

open Support

/-! ## Sessions -/

namespace SessionTable

/-- A step of the session table at time `now` that drops no session: those that it creates or touches
have this time. -/
structure Advances (now : UInt64) (t t' : SessionTable) : Prop where
  active : ∀ p s', t'.heap p = some s' → s'.lastActiveMs = now ∨ t.heap p = some s'
  kept : ∀ p s, t.heap p = some s → ∃ s', t'.heap p = some s'

theorem Advances.refl (now : UInt64) (t : SessionTable) : t.Advances now t :=
  ⟨fun _ _ hs => Or.inr hs, fun _ s hs => ⟨s, hs⟩⟩

theorem advances_touch (t : SessionTable) (o : Option SessionPtr) (now : UInt64) :
    t.Advances now (t.touch o now) := by
  refine ⟨fun p s' hs' => ?_, fun p s hs => ?_⟩
  · obtain ⟨s, hs, rfl⟩ := (touch_heap_iff t o now p s').mp hs'
    split_ifs
    · exact Or.inl rfl
    · exact Or.inr hs
  · exact ⟨_, (touch_heap_iff t o now p _).mpr ⟨s, hs, rfl⟩⟩

theorem advances_create {t : SessionTable} (h : t.Inv) (key : FlowKey) (ip : UInt32) (port : UInt16)
    (now : UInt64) : t.Advances now (t.create key ip port now).2 := by
  refine ⟨fun p s' hs' => ?_, fun p s hs => ?_⟩
  · rcases create_heap h hs' with hs | ⟨-, -, snat, rfl⟩
    · exact Or.inr hs
    · exact Or.inl rfl
  · have hstep := create_cases h key ip port now
    generalize t.create key ip port now = r at hstep ⊢
    cases hstep with
    | exhausted => exact ⟨s, hs⟩
    | created => exact ⟨s, (addSession_heap_iff h _ p s).mpr (Or.inr hs)⟩

end SessionTable

theorem Forwarder.HandleStep.advances {σ : Type} {rte : Rte} {fw : Forwarder σ}
    {st st' : ForwardState σ} {now : UInt64} {f f' : Frame} {o : HandleOutcome}
    (hstep : fw.HandleStep rte st now f o st' f') (h : st.sessions.Inv) :
    st.sessions.Advances now st'.sessions := by
  have hforward : st.sessions.Advances now (fw.sessionFor st f.flowKey now).2.sessions := by
    have hsession := fw.sessionFor_cases h f.flowKey now
    generalize fw.sessionFor st f.flowKey now = r at hsession ⊢
    cases hsession with
    | @found p _ _ _ => exact SessionTable.advances_touch st.sessions (some p) now
    | refused => exact .refl now _
    | created => exact SessionTable.advances_create h _ _ _ now
  cases hstep with
  | ignored => exact .refl now _
  | refused => exact hforward
  | forward => exact hforward
  | unknown => exact .refl now _
  | @reverse _ p _ _ _ => exact SessionTable.advances_touch st.sessions (some p) now

theorem VioletGW.HandleStep.advances {rte : Rte} {g g' : VioletGW} {now : UInt64} {f f' : Frame}
    {o : HandleOutcome} (hstep : g.HandleStep rte now f o g' f') (h : g.sessions.Inv) :
    g.sessions.Advances now g'.sessions := by
  cases hstep with
  | other => exact .refl now _
  | arp => exact .refl now _
  | ipv4 _ hfwd => exact hfwd.advances h

theorem VioletGW.HandleStep.arpProbeLastMs {rte : Rte} {g g' : VioletGW} {now : UInt64}
    {f f' : Frame} {o : HandleOutcome} (hstep : g.HandleStep rte now f o g' f') :
    g'.arpProbeLastMs = g.arpProbeLastMs := by
  cases hstep <;> rfl

/-! ## Neighbors -/

namespace NeighborTable

variable {N : NeighborTable} {t : UInt64}

/-- Every entry was seen at `t` or before; a seeded entry has the time zero. -/
def SeenBy (t : UInt64) (N : NeighborTable) : Prop :=
  ∀ ip e, N.entries.lookup ip = some e → e.lastSeenMs ≤ t

theorem SeenBy.learn (h : N.SeenBy t) (ip : UInt32) (mac : EtherAddr) : (N.learn ip mac t).SeenBy t := by
  intro ip' e he
  rw [entries_learn] at he
  split_ifs at he
  · obtain rfl := Option.some.inj he
    exact UInt64.le_refl t
  · exact h ip' e he

theorem SeenBy.expire (h : N.SeenBy t) (now : UInt64) : (N.expire now).SeenBy t := by
  intro ip e he
  rw [entries_expire, Option.bind_eq_some_iff] at he
  obtain ⟨e₀, he₀, hkeep⟩ := he
  have heq : e = e₀ := by
    rw [expireEntry] at hkeep
    split_ifs at hkeep <;> exact (Option.some.inj hkeep).symm
  rw [heq]
  exact h ip e₀ he₀

/-- Learning removes no entry. -/
theorem entries_learn_kept (ip ip' : UInt32) (mac : EtherAddr) (now : UInt64)
    (h : (N.entries.lookup ip).isSome) : ((N.learn ip' mac now).entries.lookup ip).isSome := by
  rw [entries_learn]
  split_ifs
  · rfl
  · exact h

end NeighborTable

/-- What a frame does to the neighbor table, for properties that learning preserves. -/
theorem VioletGW.handle_neighbors_invariant {P : NeighborTable → Prop} {now : UInt64}
    (hlearn : ∀ (N : NeighborTable) ip mac, P N → P (N.learn ip mac now)) (rte : Rte) {g : VioletGW}
    (h : P g.neighbors) (f : Frame) : P ((g.handle rte now).run f).val.2.neighbors := by
  rw [handle_neighbors]
  split_ifs
  · exact hlearn _ _ _ h
  · rw [NeighborTable.learnFrom]
    split_ifs
    · exact hlearn _ _ _ h
    · exact h

/-! ## The worker -/

namespace Worker

variable {rte : Rte} {w : Worker} {t : UInt64}

/-- Every time that is stored in the gateway is `t` or before. -/
structure Stamped (t : UInt64) (w : Worker) : Prop where
  sessions : ∀ p s, w.gw.sessions.heap p = some s → s.lastActiveMs ≤ t
  neighbors : w.gw.neighbors.SeenBy t
  pending : w.QueuesOk (· ≤ ·) t
  probes : ∀ ip last, w.gw.arpProbeLastMs.lookup ip = some last → last ≤ t

theorem Stamped.mono (h : w.Stamped t) {t' : UInt64} (hle : t ≤ t') : w.Stamped t' where
  sessions p s hs := UInt64.le_trans (h.sessions p s hs) hle
  neighbors ip e he := UInt64.le_trans (h.neighbors ip e he) hle
  pending := h.pending.mono fun h' => UInt64.le_trans h' hle
  probes ip last hlast := UInt64.le_trans (h.probes ip last hlast) hle

theorem start_stamped (cfg : ServiceConfig) (shm : Option CpUpdate) (nicMac : Option EtherAddr)
    (t : UInt64) : (start cfg shm nicMac).Stamped t where
  sessions p s hs := by cases nicMac <;> cases hs
  neighbors ip e he := by
    rw [start] at he
    dsimp only at he
    rw [VioletGW.init_neighbors, NeighborTable.entries_seed] at he
    split_ifs at he
    · obtain rfl := Option.some.inj he
      exact UInt64.le_iff_toNat_le.mpr (Nat.zero_le _)
    · cases he
  pending ip q hq := by cases nicMac <;> cases hq
  probes ip last hlast := by cases nicMac <;> cases hlast

theorem flushLearned_probes (o : HandleOutcome) (now : UInt64) (cap : Nat) :
    (w.flushLearned rte o now cap).gw.arpProbeLastMs = w.gw.arpProbeLastMs := by
  have hgw := congrArg VioletGW.arpProbeLastMs
    (foldl_flushEntry_gw rte o.learnedIp now cap (w.queue o.learnedIp) (w, []))
  rcases w.flushLearned_cases rte o now with hidle | hloop
  · rw [hidle]
  · rw [hloop]
    rw [storeRemaining]
    split_ifs <;> exact hgw

theorem enqueuePending_probes (w : Worker) (ip : UInt32) (m : Mbuf) (now : UInt64) :
    (w.enqueuePending ip m now).gw.arpProbeLastMs = w.gw.arpProbeLastMs := by
  rw [enqueuePending]
  split_ifs <;> rfl

/-- The times of the probes after a frame: the old ones, and perhaps one of now. -/
theorem dispose_probes (w : Worker) (o : HandleOutcome) (m : Mbuf) (now : UInt64)
    (buf : Option Frame) (cap : Nat) {ip : UInt32} {last : UInt64}
    (h : (w.dispose o m now buf cap).gw.arpProbeLastMs.lookup ip = some last) :
    last = now ∨ w.gw.arpProbeLastMs.lookup ip = some last := by
  rw [dispose] at h
  generalize o.result = result at h
  cases result with
  | drop => exact Or.inr h
  | pendingArp =>
      dsimp only at h
      rw [← w.enqueuePending_probes o.arpWaitIp m now]
      have hprobe := (w.enqueuePending o.arpWaitIp m now).maybeProbeArp_step o.arpWaitIp now buf cap
      generalize (w.enqueuePending o.arpWaitIp m now).maybeProbeArp o.arpWaitIp now buf cap = w'
        at hprobe h
      cases hprobe with
      | none => exact Or.inr h
      | discarded => exact Or.inr h
      | sent =>
          by_cases hself : ip = o.arpWaitIp
          · rw [hself] at h
            exact Or.inl (Option.some.inj ((AList.lookup_insert _).symm.trans h)).symm
          · exact Or.inr ((AList.lookup_insert_ne hself).symm.trans h)
  | txForward => exact Or.inr h
  | txReverse => exact Or.inr h
  | txArp => exact Or.inr h

theorem Stamped.handleRx (h : w.Stamped t) (hinv : w.gw.sessions.Inv) (m : Mbuf)
    (buf : Option Frame) (cap : Nat) : (w.handleRx rte m t buf cap).Stamped t := by
  have hstep := w.gw.handle_cases rte hinv t m.frame
  have hcore := handleRx_core rte w m t buf cap
  refine ⟨?_, ?_, h.pending.handleRx (UInt64.le_refl t) hinv m buf cap, ?_⟩
  · intro p s hs
    rw [hcore.sessions] at hs
    rcases (hstep.advances hinv).active p s hs with hnow | hold
    · rw [hnow]
      exact UInt64.le_refl t
    · exact h.sessions p s hold
  · rw [hcore.neighbors]
    exact VioletGW.handle_neighbors_invariant (fun _ ip mac hN => hN.learn ip mac) rte h.neighbors
      m.frame
  · intro ip last hlast
    rcases dispose_probes _ _ _ _ _ _ hlast with hnow | hold
    · rw [hnow]
      exact UInt64.le_refl t
    · rw [flushLearned_probes] at hold
      exact h.probes ip last (hstep.arpProbeLastMs ▸ hold)

theorem Stamped.step (h : w.Stamped t) (hinv : w.gw.sessions.Inv) {e : Event} (he : e.At t) :
    (w.step rte e).Stamped t := by
  have hpending : (w.step rte e).QueuesOk (· ≤ ·) t := h.pending.step (UInt64.le_refl t) hinv he
  cases e with
  | expireSessions now =>
      refine ⟨?_, h.neighbors, hpending, h.probes⟩
      intro p s hs
      rcases w.gw.sessions.expire_heap now p with hsame | ⟨hnone, -⟩
      · exact h.sessions p s (hsame.symm.trans hs)
      · cases hnone.symm.trans hs
  | expireNeighbors now => exact ⟨h.sessions, h.neighbors.expire now, hpending, h.probes⟩
  | expirePending now => exact ⟨h.sessions, h.neighbors, hpending, h.probes⟩
  | pollControl update => cases update <;> exact ⟨h.sessions, h.neighbors, hpending, h.probes⟩
  | handleNext now buf =>
      obtain rfl : now = t := he
      cases hrx : w.rx with
      | nil =>
          simp only [Worker.step, hrx]
          exact h
      | cons m rest =>
          simp only [Worker.step, hrx]
          exact Stamped.handleRx (w := { w with rx := rest })
            ⟨h.sessions, h.neighbors, h.pending, h.probes⟩ hinv m buf Config.ioRxBurst
  | setUpstreams endpoints => exact ⟨h.sessions, h.neighbors, hpending, h.probes⟩
  | setPolicy policy => exact ⟨h.sessions, h.neighbors, hpending, h.probes⟩
  | recvBurst frames => exact ⟨h.sessions, h.neighbors, hpending, h.probes⟩
  | finishBurst accepted => exact ⟨h.sessions, h.neighbors, hpending, h.probes⟩

/-! ## What a step drops -/

/-- No session, no neighbor and no waiting packet is dropped that is not overdue at `now`; a packet
that is not overdue waits on, or it is in the transmit array. -/
structure KeepsLive (now : UInt64) (w w' : Worker) : Prop where
  session : ∀ p s, w.gw.sessions.heap p = some s →
    now.toNat < s.lastActiveMs.toNat + w.gw.sessions.idleTimeoutMs.toNat →
      ∃ s', w'.gw.sessions.heap p = some s'
  neighbor : ∀ ip e, w.gw.neighbors.entries.lookup ip = some e →
    e.isStatic = true ∨ now.toNat < e.lastSeenMs.toNat + w.gw.neighbors.entryTimeoutMs.toNat →
      (w'.gw.neighbors.entries.lookup ip).isSome
  pending : ∀ ip, ∀ e ∈ w.queue ip, now.toNat < e.enqueuedMs.toNat + Config.arpPendingTimeoutMs.toNat →
    (∃ e' ∈ w'.queue ip, e'.m.addr = e.m.addr) ∨ ∃ m ∈ w'.tx.items, m.addr = e.m.addr

theorem timedOut_eq_false {e : ArpPendingEntry} (hle : e.enqueuedMs ≤ t)
    (h : t.toNat < e.enqueuedMs.toNat + Config.arpPendingTimeoutMs.toNat) :
    timedOut t e = false := by
  rw [timedOut, decide_eq_false_iff_not, timeout_iff hle]
  omega

variable (rte) in
/-- A flush sends a packet that is not overdue, or keeps it. -/
theorem flushLearned_kept {ip : UInt32} {e : ArpPendingEntry}
    (hqueue : ∀ ip, ∀ e ∈ w.queue ip, e.m.frame.Accepts) (he : e ∈ w.queue ip) {now : UInt64}
    (hlive : timedOut now e = false) (o : HandleOutcome) (cap : Nat) :
    (∃ e' ∈ (w.flushLearned rte o now cap).queue ip, e'.m.addr = e.m.addr) ∨
      ∃ m ∈ (w.flushLearned rte o now cap).tx.items, m.addr = e.m.addr := by
  rcases w.flushLearned_cases rte o now with hidle | hloop
  · rw [hidle]
    exact Or.inl ⟨e, he, rfl⟩
  · rw [hloop, storeRemaining_queue, storeRemaining_tx]
    split_ifs with hself
    · rw [hself] at he
      have hin : e ∈ inTime now (w.queue o.learnedIp) := List.mem_filter.mpr ⟨he, by simp [hlive]⟩
      cases hmac : w.gw.neighbors.lookup o.learnedIp with
      | none =>
          rw [(foldl_flushEntry_unresolved rte now cap _ (hqueue o.learnedIp) w [] hmac).1]
          exact Or.inl ⟨e, hin, rfl⟩
      | some mac =>
          obtain ⟨hrest, htx, -⟩ :=
            foldl_flushEntry_resolved rte now cap _ (hqueue o.learnedIp) w [] hmac
          rw [hrest, htx]
          -- the packets in time are those that fit and those that do not
          have hmem := List.mem_map_of_mem (f := (·.withL2 w.gw.fcfg.gatewayMac mac)) hin
          rw [← List.take_append_drop (cap - w.tx.n)
            ((inTime now (w.queue o.learnedIp)).map _)] at hmem
          rcases List.mem_append.mp hmem with hfits | hstays
          · exact Or.inr ⟨_, List.mem_append_right _ (List.mem_map_of_mem hfits), rfl⟩
          · exact Or.inl ⟨_, hstays, rfl⟩
    · rw [foldl_flushEntry_queue]
      exact Or.inl ⟨e, he, rfl⟩

/-- What becomes of the frame itself removes nothing from a queue. -/
theorem dispose_kept (w : Worker) (o : HandleOutcome) (m : Mbuf) (now : UInt64)
    (buf : Option Frame) (cap : Nat) {ip : UInt32} {e : ArpPendingEntry} (he : e ∈ w.queue ip) :
    e ∈ (w.dispose o m now buf cap).queue ip := by
  by_cases h : o.result = .pendingArp ∧ o.arpWaitIp = ip
  · obtain ⟨hresult, rfl⟩ := h
    rw [dispose, hresult]
    dsimp only
    rw [queue, maybeProbeArp_arpPending]
    rw [enqueuePending]
    split_ifs
    · exact he
    · exact he
    · simp only [setPending, listAt_insert_self]
      exact List.mem_append_left _ he
  · rw [dispose_queue w fun hresult hip => h ⟨hresult, hip⟩]
    exact he

variable (rte) in
theorem KeepsLive.handleRx (h : w.Stamped t) (hinv : w.gw.sessions.Inv) (m : Mbuf)
    (buf : Option Frame) (cap : Nat) : KeepsLive t w (w.handleRx rte m t buf cap) := by
  have hstep := w.gw.handle_cases rte hinv t m.frame
  have hcore := handleRx_core rte w m t buf cap
  have hpending := hstep.arpPending
  refine ⟨fun p s hs _ => ?_, fun ip e he _ => ?_, fun ip e he hlive => ?_⟩
  · rw [hcore.sessions]
    exact (hstep.advances hinv).kept p s hs
  · rw [hcore.neighbors]
    exact VioletGW.handle_neighbors_invariant (P := fun N => (N.entries.lookup ip).isSome = true)
      (fun N ip' mac hN => N.entries_learn_kept ip ip' mac t hN) rte (by rw [he]; rfl) m.frame
  · unfold Worker.handleRx
    dsimp only
    generalize ((w.gw.handle rte t).run m.frame).val = r at hpending
    have hqueue : ∀ ip, ({ w with gw := r.2 } : Worker).queue ip = w.queue ip := fun ip =>
      congrArg (listAt · ip) hpending
    have haccepts : ∀ ip, ∀ e ∈ ({ w with gw := r.2 } : Worker).queue ip, e.m.frame.Accepts := by
      intro ip e he
      rw [hqueue] at he
      rcases (h.pending.queue ip).1 with hnil | hok
      · rw [hnil] at he
        cases he
      · exact hok.accepts e he
    have hfalse := timedOut_eq_false ((h.pending.queue ip).2 e he) hlive
    rcases flushLearned_kept rte haccepts ((hqueue ip).symm ▸ he) hfalse r.1 cap with
      ⟨e', he', haddr⟩ | ⟨m', hm', haddr⟩
    · exact Or.inl ⟨e', dispose_kept _ _ _ t buf cap he', haddr⟩
    · exact Or.inr ⟨m', (dispose_extends _ _ _ t buf cap).tx.subset hm', haddr⟩

/-- A step that leaves the three tables alone. -/
theorem KeepsLive.of_same {w' : Worker} (hsessions : w'.gw.sessions = w.gw.sessions)
    (hneighbors : w'.gw.neighbors = w.gw.neighbors) (hpending : w'.gw.arpPending = w.gw.arpPending) :
    KeepsLive t w w' := by
  refine ⟨fun p s hs _ => ⟨s, hsessions ▸ hs⟩, fun ip e he _ => ?_, fun ip e he _ => ?_⟩
  · rw [hneighbors, he]
    rfl
  · rw [queue] at he ⊢
    rw [hpending]
    exact Or.inl ⟨e, he, rfl⟩

theorem KeepsLive.expireSessions (h : w.Stamped t) :
    KeepsLive t w (w.step rte (.expireSessions t)) := by
  have hrest : KeepsLive t w w := .of_same rfl rfl rfl
  refine ⟨fun p s hs hlive => ?_, hrest.neighbor, hrest.pending⟩
  rcases w.gw.sessions.expire_heap t p with hkept | ⟨-, hidle⟩
  · exact ⟨s, hkept.trans hs⟩
  · rw [SessionTable.isIdle, hs] at hidle
    have hdue := (timeout_iff (h.sessions p s hs) _).mp (of_decide_eq_true hidle)
    omega

theorem KeepsLive.expireNeighbors (h : w.Stamped t) :
    KeepsLive t w (w.step rte (.expireNeighbors t)) := by
  have hrest : KeepsLive t w w := .of_same rfl rfl rfl
  refine ⟨hrest.session, fun ip e he hlive => ?_, hrest.pending⟩
  show ((w.gw.neighbors.expire t).entries.lookup ip).isSome
  rw [NeighborTable.entries_expire, he, Option.bind_some]
  rw [NeighborTable.expireEntry]
  rcases hlive with hstatic | hlive
  · rw [if_pos hstatic]
    rfl
  · split_ifs with _ hdue
    · rfl
    · rw [timeout_iff (h.neighbors ip e he)] at hdue
      omega
    · rfl

theorem KeepsLive.expirePending (h : w.Stamped t) :
    KeepsLive t w (w.step rte (.expirePending t)) := by
  have hrest : KeepsLive t w w := .of_same rfl rfl rfl
  refine ⟨hrest.session, hrest.neighbor, fun ip e he hlive => ?_⟩
  have hfalse := timedOut_eq_false ((h.pending.queue ip).2 e he) hlive
  refine Or.inl ⟨e, ?_, rfl⟩
  rw [Worker.step, expirePending_queue]
  exact List.mem_filter.mpr ⟨he, by simp [hfalse]⟩

theorem KeepsLive.step (h : w.Stamped t) (hinv : w.gw.sessions.Inv) {e : Event} (he : e.At t) :
    KeepsLive t w (w.step rte e) := by
  cases e with
  | expireSessions now =>
      obtain rfl : now = t := he
      exact .expireSessions h
  | expireNeighbors now =>
      obtain rfl : now = t := he
      exact .expireNeighbors h
  | expirePending now =>
      obtain rfl : now = t := he
      exact .expirePending h
  | pollControl update => cases update <;> exact .of_same rfl rfl rfl
  | handleNext now buf =>
      obtain rfl : now = t := he
      cases hrx : w.rx with
      | nil =>
          simp only [Worker.step, hrx]
          exact .of_same rfl rfl rfl
      | cons m rest =>
          simp only [Worker.step, hrx]
          have hone := KeepsLive.handleRx rte (w := { w with rx := rest })
            ⟨h.sessions, h.neighbors, h.pending, h.probes⟩ hinv m buf Config.ioRxBurst
          exact ⟨hone.session, hone.neighbor, hone.pending⟩
  | setUpstreams endpoints => exact .of_same rfl rfl rfl
  | setPolicy policy => exact .of_same rfl rfl rfl
  | recvBurst frames => exact .of_same rfl rfl rfl
  | finishBurst accepted => exact .of_same rfl rfl rfl

/-! ## The differences that are evaluated -/

/-- The differences of times that a step of the worker evaluates: the present, minus a stored time. -/
inductive Subtracts (rte : Rte) (w : Worker) : Event → UInt64 → UInt64 → Prop
  /-- the idle test of `SessionTable::expire` -/
  | session (now : UInt64) {p : SessionPtr} {s : Session} (hp : p ∈ w.gw.sessions.sessions)
      (hs : w.gw.sessions.heap p = some s) :
      Subtracts rte w (.expireSessions now) now s.lastActiveMs
  /-- the test of `NeighborTable::expire`, which passes over static entries -/
  | neighbor (now : UInt64) {ip : UInt32} {e : NeighborEntry}
      (he : w.gw.neighbors.entries.lookup ip = some e) (hdyn : e.isStatic = false) :
      Subtracts rte w (.expireNeighbors now) now e.lastSeenMs
  /-- the timeout in `expire_pending` -/
  | pending (now : UInt64) {ip : UInt32} {e : ArpPendingEntry} (he : e ∈ w.queue ip) :
      Subtracts rte w (.expirePending now) now e.enqueuedMs
  /-- the timeout in `flush_pending`, for the address that `handle` reports -/
  | flush (now : UInt64) (buf : Option Frame) {m : Mbuf} {rest : List Mbuf} {e : ArpPendingEntry}
      (hrx : w.rx = m :: rest)
      (he : e ∈ w.queue ((w.gw.handle rte now).run m.frame).val.1.learnedIp) :
      Subtracts rte w (.handleNext now buf) now e.enqueuedMs
  /-- the probe interval in `maybe_probe_arp`, for the address that the frame waits for -/
  | probe (now : UInt64) (buf : Option Frame) {m : Mbuf} {rest : List Mbuf} {last : UInt64}
      (hrx : w.rx = m :: rest)
      (hlast : w.gw.arpProbeLastMs.lookup ((w.gw.handle rte now).run m.frame).val.1.arpWaitIp =
        some last) :
      Subtracts rte w (.handleNext now buf) now last

theorem Subtracts.le {e : Event} {now stored : UInt64} (hsub : w.Subtracts rte e now stored)
    (h : w.Stamped t) (he : e.At t) : now = t ∧ stored ≤ t := by
  cases hsub with
  | session _ _ hs => exact ⟨he, h.sessions _ _ hs⟩
  | neighbor _ hentry _ => exact ⟨he, h.neighbors _ _ hentry⟩
  | pending _ hqueue => exact ⟨he, (h.pending.queue _).2 _ hqueue⟩
  | flush _ _ _ hqueue => exact ⟨he, (h.pending.queue _).2 _ hqueue⟩
  | probe _ _ _ hlast => exact ⟨he, h.probes _ _ hlast⟩

end Worker

/-! ## The loop -/

namespace LoopState

variable (rte : Rte)

/-- The differences of times that an iteration evaluates: those of the three timers, and those of its
steps. -/
inductive Subtracts (s : LoopState) (inp : LoopInput) : UInt64 → UInt64 → Prop
  | expireTimer : Subtracts s inp inp.nowMs s.lastExpireMs
  | arpExpireTimer : Subtracts s inp inp.nowMs s.lastArpExpireMs
  | cpPollTimer : Subtracts s inp inp.nowMs s.lastCpPollMs
  | step {es es' : List Worker.Event} {e : Worker.Event} (hevents : s.events inp = es ++ e :: es')
      {now stored : UInt64} (hsub : (run (Worker.step rte) s.worker es).Subtracts rte e now stored) :
      Subtracts s inp now stored

/-- Every time that is stored in the gateway or in a timer is `t` or before. -/
structure Stamped (cfg : ServiceConfig) (t : UInt64) (s : LoopState) : Prop where
  inv : s.worker.Inv cfg
  worker : s.worker.Stamped t
  lastExpireMs : s.lastExpireMs ≤ t
  lastArpExpireMs : s.lastArpExpireMs ≤ t
  lastCpPollMs : s.lastCpPollMs ≤ t

variable {cfg : ServiceConfig} {t : UInt64} {s : LoopState}

theorem Stamped.mono (h : s.Stamped cfg t) {t' : UInt64} (hle : t ≤ t') : s.Stamped cfg t' where
  inv := h.inv
  worker := h.worker.mono hle
  lastExpireMs := UInt64.le_trans h.lastExpireMs hle
  lastArpExpireMs := UInt64.le_trans h.lastArpExpireMs hle
  lastCpPollMs := UInt64.le_trans h.lastCpPollMs hle

/-- In the middle of an iteration, stored times are not later than its clock reading. -/
theorem Stamped.events {inp : LoopInput} (h : s.Stamped cfg inp.nowMs) {es : List Worker.Event}
    (hes : ∀ e ∈ es, e.At inp.nowMs) :
    (run (Worker.step rte) s.worker es).Inv cfg ∧
      (run (Worker.step rte) s.worker es).Stamped inp.nowMs :=
  run_invariant_of_mem (P := fun w : Worker => w.Inv cfg ∧ w.Stamped inp.nowMs)
    (fun w e he hw => ⟨Worker.step_inv rte w e hw.1, hw.2.step hw.1.sessions (hes e he)⟩)
    ⟨h.inv, h.worker⟩

/-- A timer keeps its time, or takes the present one. -/
theorem iterate_timers (s : LoopState) (inp : LoopInput) :
    ((s.iterate rte inp).lastExpireMs = s.lastExpireMs ∨
        (s.iterate rte inp).lastExpireMs = inp.nowMs) ∧
      ((s.iterate rte inp).lastArpExpireMs = s.lastArpExpireMs ∨
        (s.iterate rte inp).lastArpExpireMs = inp.nowMs) ∧
      ((s.iterate rte inp).lastCpPollMs = s.lastCpPollMs ∨
        (s.iterate rte inp).lastCpPollMs = inp.nowMs) := by
  rw [iterate, housekeeping]
  dsimp only
  split_ifs <;> simp

theorem Stamped.iterate (inp : LoopInput) (h : s.Stamped cfg inp.nowMs) :
    (s.iterate rte inp).Stamped cfg inp.nowMs := by
  have htimer : ∀ {old new : UInt64}, old ≤ inp.nowMs → new = old ∨ new = inp.nowMs →
      new ≤ inp.nowMs := by
    rintro old new hle (rfl | rfl)
    · exact hle
    · exact UInt64.le_refl _
  obtain ⟨hexpire, harp, hpoll⟩ := iterate_timers rte s inp
  have hworker := h.events rte (s.events_at inp)
  rw [← iterate_worker] at hworker
  exact ⟨hworker.1, hworker.2, htimer h.lastExpireMs hexpire, htimer h.lastArpExpireMs harp,
    htimer h.lastCpPollMs hpoll⟩

/-- If the clock does not run backwards, no difference of times that the loop evaluates wraps: the
stored time is not later than the present, so the difference is the time that has passed. And no step
drops a session, a neighbor or a waiting packet that is not overdue. -/
theorem times_do_not_wrap (cfg : ServiceConfig) (shm : Option CpUpdate) (nicMac : Option EtherAddr)
    (t₀ : UInt64) (inputs : List LoopInput)
    (hclock : (t₀ :: inputs.map LoopInput.nowMs).Pairwise (· ≤ ·)) (earlier : List LoopInput)
    (inp : LoopInput) (hinp : earlier ++ [inp] <+: inputs) {s : LoopState}
    (hs : run (iterate rte) (start cfg shm nicMac t₀) earlier = s) :
    (∀ now stored, s.Subtracts rte inp now stored →
      stored ≤ now ∧ (now - stored).toNat = now.toNat - stored.toNat) ∧
    ∀ es e es', s.events inp = es ++ e :: es' →
      Worker.KeepsLive inp.nowMs (run (Worker.step rte) s.worker es)
        ((run (Worker.step rte) s.worker es).step rte e) := by
  have hsub : (t₀ :: (earlier ++ [inp]).map LoopInput.nowMs).Pairwise (· ≤ ·) :=
    hclock.sublist ((hinp.sublist.map _).cons_cons t₀)
  rw [List.map_append, List.map_singleton, List.pairwise_cons, List.pairwise_append] at hsub
  obtain ⟨hstart, hearlier, -, hlast⟩ := hsub
  have hstamped : s.Stamped cfg inp.nowMs := by
    rw [← hs]
    refine run_clocked LoopInput.nowMs (P := Stamped cfg) (t := t₀) (fun hle h => h.mono hle)
      (fun s inp h => h.iterate rte inp) ?_ hearlier ?_ ?_ ?_
    · exact ⟨Worker.start_inv cfg shm nicMac, Worker.start_stamped cfg shm nicMac t₀,
        UInt64.le_refl _, UInt64.le_refl _, UInt64.le_refl _⟩
    · exact fun e he => hstart _ (List.mem_append_left _ (List.mem_map_of_mem he))
    · exact fun e he => hlast _ (List.mem_map_of_mem he) _ (List.mem_singleton_self _)
    · exact hstart _ (by simp)
  have hevents : ∀ {es e es'}, s.events inp = es ++ e :: es' →
      (run (Worker.step rte) s.worker es).Inv cfg ∧
        (run (Worker.step rte) s.worker es).Stamped inp.nowMs ∧ e.At inp.nowMs := by
    intro es e es' heq
    have hat := s.events_at inp
    rw [heq] at hat
    obtain ⟨hinv, hw⟩ := hstamped.events rte fun e he => hat e (List.mem_append_left _ he)
    exact ⟨hinv, hw, hat e (by simp)⟩
  constructor
  · intro now stored h
    have hle : now = inp.nowMs ∧ stored ≤ inp.nowMs := by
      cases h with
      | expireTimer => exact ⟨rfl, hstamped.lastExpireMs⟩
      | arpExpireTimer => exact ⟨rfl, hstamped.lastArpExpireMs⟩
      | cpPollTimer => exact ⟨rfl, hstamped.lastCpPollMs⟩
      | step heq hsub =>
          obtain ⟨-, hw, hat⟩ := hevents heq
          exact hsub.le hw hat
    obtain ⟨rfl, hle⟩ := hle
    exact ⟨hle, elapsed_of_le hle⟩
  · intro es e es' heq
    obtain ⟨hinv, hw, hat⟩ := hevents heq
    exact Worker.KeepsLive.step hw hinv.sessions hat

/-- The lab gateway when two frames of a client wait for the upstream. -/
def labWaited : LoopState := run (iterate Rte.dpdk) (start .lab none none 0) [labWaitInput]

/-- All timers fire. -/
def labSweepInput : LoopInput where
  nowMs := 60500
  control := none
  rx := []
  rx_le := by decide
  accepted := []

/-- The time that the session was not used, and that the two packets have waited. -/
theorem times_do_not_wrap_lab :
    (∃ s, labWaited.worker.gw.sessions.heap 0 = some s ∧
      (labSweepInput.nowMs - s.lastActiveMs).toNat = 59500) ∧
    (labWaited.worker.queue (Config.ipv4From ![10, 0, 0, 2])).length = 2 ∧
    ∀ e ∈ labWaited.worker.queue (Config.ipv4From ![10, 0, 0, 2]),
      (labSweepInput.nowMs - e.enqueuedMs).toNat = 59500 := by
  have hclock : ((0 : UInt64) :: [labWaitInput, labSweepInput].map LoopInput.nowMs).Pairwise
      (· ≤ ·) := by
    decide
  obtain ⟨hdiff, -⟩ := times_do_not_wrap Rte.dpdk .lab none none 0 [labWaitInput, labSweepInput] hclock
    [labWaitInput] labSweepInput List.prefix_rfl (show _ = labWaited from rfl)
  have hexpire : labWaited.lastExpireMs = 1000 := by decide +kernel
  have harp : labWaited.lastArpExpireMs = 0 := by decide +kernel
  have hpoll : labWaited.lastCpPollMs = 1000 := by decide +kernel
  have hevents : labWaited.events labSweepInput = [] ++ .expireSessions 60500 ::
      [.expireNeighbors 60500, .expirePending 60500, .pollControl none] := by
    rw [events, housekeepingEvents, hexpire, harp, hpoll]
    rfl
  have hevents' : labWaited.events labSweepInput =
      [.expireSessions 60500, .expireNeighbors 60500] ++ .expirePending 60500 ::
        [.pollControl none] := hevents
  have hactive : (labWaited.worker.gw.sessions.heap 0).map Session.lastActiveMs = some 1000 := by
    decide +kernel
  have hqueued : (labWaited.worker.queue (Config.ipv4From ![10, 0, 0, 2])).map
      ArpPendingEntry.enqueuedMs = [1000, 1000] := by
    decide +kernel
  refine ⟨?_, ?_, ?_⟩
  · obtain ⟨s, hs, hlast⟩ := Option.map_eq_some_iff.mp hactive
    have hp : (0 : SessionPtr) ∈ labWaited.worker.gw.sessions.sessions := by decide +kernel
    have hidle := (hdiff 60500 _ (.step hevents (.session 60500 hp hs))).2
    rw [hlast] at hidle
    refine ⟨s, hs, ?_⟩
    rw [hlast]
    exact hidle
  · rw [← List.length_map, hqueued]
    rfl
  · intro e he
    have hlast : e.enqueuedMs = 1000 := by
      have hmem := List.mem_map_of_mem (f := ArpPendingEntry.enqueuedMs) he
      rw [hqueued] at hmem
      simpa using hmem
    have hwaited := (hdiff 60500 _ (.step hevents' (.pending 60500 he))).2
    rw [hlast] at hwaited ⊢
    exact hwaited

end LoopState

end VioletGateway
