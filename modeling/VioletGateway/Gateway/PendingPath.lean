import VioletGateway.Gateway.Loop

/-!
# The pending path

A frame whose next hop is not resolved is rewritten by NAT, queued, and gets its MAC addresses when
the next hop is learned. The L2 rewrite is the last thing that happens on the direct path, too, and
it absorbs whatever MAC addresses an earlier attempt has left, so the two paths send the same frame.

`handle_resolved` compares the two outcomes of `handle`; `Waits` is what remains true of the queued
frame while it waits; `pending_frame_eq_direct` puts the two together.
-/

set_option autoImplicit false

namespace VioletGateway

open Support

/-! ## Handling with the next hop resolved -/

/-- The session part does not look at the neighbor table. -/
theorem Forwarder.sessionFor_setNeighbors {σ : Type} (fw : Forwarder σ) (st : ForwardState σ)
    (N : Option NeighborTable) (key : FlowKey) (now : UInt64) :
    fw.sessionFor { st with neighbors := N } key now =
      ((fw.sessionFor st key now).1, { (fw.sessionFor st key now).2 with neighbors := N }) := by
  unfold sessionFor
  dsimp only
  split
  · rfl
  · split
    · rfl
    · split
      · rfl
      · split_ifs <;> rfl

/-- If a frame does not make `ip` resolvable, then learning from it leaves `ip` alone. -/
theorem NeighborTable.lookup_learnFrom_of_none {N : NeighborTable} {f : Frame} {now : UInt64}
    {ip : UInt32} (h : (N.learnFrom f now).lookup ip = none) (N' : NeighborTable) :
    (N'.learnFrom f now).lookup ip = N'.lookup ip := by
  rw [learnFrom] at h ⊢
  split_ifs at h ⊢ with hlearn
  -- a frame from `ip` that can be learned would have resolved it
  · by_cases hip : ip = f.srcIp
    · have hsome := N.lookup_learn_self f.srcIp (f.mac EtherHdr.srcAddr) now
      rw [hip] at h
      rw [h] at hsome
      cases hsome
    · exact N'.lookup_learn_ne _ now hip
  · rfl

namespace Forwarder

variable {σ : Type} {rte : Rte} {fw : Forwarder σ}

theorem sendOutcome_pending {hop : Option EtherAddr} {ip : UInt32} {sent : HandleResult}
    (hsent : sent ≠ .pendingArp) (h : (sendOutcome hop ip sent).result = .pendingArp) :
    hop = none ∧ (sendOutcome hop ip sent).arpWaitIp = ip := by
  cases hop with
  | none => exact ⟨rfl, rfl⟩
  | some mac => exact absurd h hsent

/-- A frame that has to wait is one whose next hop is not resolved. -/
theorem HandleStep.unresolved {st st' : ForwardState σ} {now : UInt64} {f f' : Frame}
    {o : HandleOutcome} (hstep : fw.HandleStep rte st now f o st' f') {N : NeighborTable}
    (hN : st.neighbors = some N) (hpend : o.result = .pendingArp) :
    N.lookup o.arpWaitIp = none := by
  cases hstep with
  | ignored => cases hpend
  | refused => cases hpend
  | unknown => cases hpend
  | forward =>
      obtain ⟨hhop, hip⟩ := sendOutcome_pending (by decide) hpend
      rw [hip]
      rwa [hN] at hhop
  | reverse =>
      obtain ⟨hhop, hip⟩ := sendOutcome_pending (by decide) hpend
      rw [hip]
      rwa [hN] at hhop

/-- With the next hop resolved, a frame that had to wait is transmitted, and the only difference are
the MAC addresses. -/
theorem HandleStep.resolved {st st' : ForwardState σ} {now : UInt64} {f f' : Frame}
    {o : HandleOutcome} (hstep : fw.HandleStep rte st now f o st' f')
    (hpend : o.result = .pendingArp) {N : NeighborTable} {mac : EtherAddr}
    (hmac : N.lookup o.arpWaitIp = some mac) {o₂ : HandleOutcome} {st₂ : ForwardState σ}
    {f₂ : Frame} (hstep₂ : fw.HandleStep rte { st with neighbors := some N } now f o₂ st₂ f₂) :
    (o₂.result = .txForward ∨ o₂.result = .txReverse) ∧ f₂ = f'.withL2 fw.cfg.gatewayMac mac := by
  cases hstep with
  | ignored => cases hpend
  | refused => cases hpend
  | unknown => cases hpend
  | @forward hvip p s hp hs _ =>
      obtain ⟨hhop, hip⟩ := sendOutcome_pending (by decide) hpend
      rw [hip] at hmac
      rw [hhop]
      -- the same class of frame, and the same session
      cases hstep₂ with
      | ignored hnot _ => exact absurd hvip hnot
      | refused _ hnone =>
          rw [sessionFor_setNeighbors] at hnone
          exact nomatch hp.symm.trans hnone
      | @forward _ p₂ s₂ hp₂ hs₂ _ =>
          rw [sessionFor_setNeighbors] at hp₂ hs₂
          obtain rfl := Option.some.inj (hp.symm.trans hp₂)
          obtain rfl := Option.some.inj (hs.symm.trans hs₂)
          have hhop₂ : lookupNextHopMac (some N) s.upstreamIp fw.cfg.upstreamMac = some mac := hmac
          dsimp only
          rw [hhop₂]
          exact ⟨Or.inl rfl, rfl⟩
      | unknown hgw _ => exact absurd hvip.2 hgw.2.1
      | reverse hgw _ _ => exact absurd hvip.2 hgw.2.1
  | @reverse hgw p s hp hs =>
      obtain ⟨hhop, hip⟩ := sendOutcome_pending (by decide) hpend
      rw [hip] at hmac
      rw [hhop]
      cases hstep₂ with
      | ignored _ hnot => exact absurd hgw hnot
      | refused hvip _ => exact absurd hvip.2 hgw.2.1
      | forward hvip _ _ _ => exact absurd hvip.2 hgw.2.1
      | unknown _ hnone => exact nomatch hp.symm.trans hnone
      | @reverse _ p₂ s₂ hp₂ hs₂ =>
          obtain rfl := Option.some.inj (hp.symm.trans hp₂)
          obtain rfl := Option.some.inj (hs.symm.trans hs₂)
          have hhop₂ : lookupNextHopMac (some N) s.clientIp fw.cfg.clientSideMac = some mac := hmac
          dsimp only
          rw [hhop₂]
          exact ⟨Or.inr rfl, rfl⟩

end Forwarder

namespace VioletGW

variable (rte : Rte)

/-- If a frame has to wait, then in the same state, but with its next hop resolved to `mac`, it is
transmitted at once, and it is the waiting frame with its MAC addresses set. -/
theorem handle_resolved {g : VioletGW} (h : g.sessions.Inv) (now : UInt64) (f : Frame)
    (hpend : ((g.handle rte now).run f).val.1.result = .pendingArp) {N : NeighborTable}
    {mac : EtherAddr}
    (hmac : N.lookup ((g.handle rte now).run f).val.1.arpWaitIp = some mac) :
    ((({ g with neighbors := N }.handle rte now).run f).val.1.result = .txForward ∨
        (({ g with neighbors := N }.handle rte now).run f).val.1.result = .txReverse) ∧
      (({ g with neighbors := N }.handle rte now).run f).mem =
        ((g.handle rte now).run f).mem.withL2 g.fcfg.gatewayMac mac := by
  have hstep := g.handle_cases rte h now f
  have hstep₂ := ({ g with neighbors := N } : VioletGW).handle_cases rte h now f
  generalize (g.handle rte now).run f = out at hstep hpend hmac ⊢
  generalize ({ g with neighbors := N }.handle rte now).run f = out₂ at hstep₂ ⊢
  obtain ⟨⟨o, g'⟩, f', log⟩ := out
  obtain ⟨⟨o₂, g₂⟩, f₂, log₂⟩ := out₂
  dsimp only at *
  cases hstep with
  | other => cases hpend
  | arp _ harp => cases harp <;> cases hpend
  | ipv4 htype hfwd =>
      cases hstep₂ with
      | other hnot => exact absurd htype hnot
      | arp hnot _ => exact absurd htype hnot
      | ipv4 _ hfwd₂ =>
          -- the frame is not from its own next hop, so learning from it does not change the answer
          have hnone := hfwd.unresolved rfl hpend
          have hmac' : (N.learnFrom f now).lookup _ = some mac :=
            (NeighborTable.lookup_learnFrom_of_none hnone N).trans hmac
          obtain ⟨hresult, hframe⟩ := hfwd.resolved hpend hmac' hfwd₂
          exact ⟨hresult, hframe⟩

end VioletGW

/-! ## What a flush does to a waiting frame -/

/-- The frames differ at most in their MAC addresses. -/
def Frame.SameButL2 (f g : Frame) : Prop := ∀ src dst, f.withL2 src dst = g.withL2 src dst

theorem Frame.SameButL2.trans {f g h : Frame} (h₁ : f.SameButL2 g) (h₂ : g.SameButL2 h) :
    f.SameButL2 h :=
  fun src dst => (h₁ src dst).trans (h₂ src dst)

/-- `finish_l2` sets the MAC addresses if it returns true, and leaves the frame alone otherwise. -/
theorem Forwarder.finishL2_cases {σ : Type} (rte : Rte) (fw : Forwarder σ) (N : NeighborTable)
    (ip : UInt32) (f : Frame) :
    (((fw.finishL2 rte (some N) ip).run f).val = false ∧
        ((fw.finishL2 rte (some N) ip).run f).mem = f) ∨
      ∃ mac, N.lookup ip = some mac ∧
        ((fw.finishL2 rte (some N) ip).run f).mem = f.withL2 fw.cfg.gatewayMac mac := by
  rw [finishL2]
  simp only [Traced.bind_val, Traced.bind_mem, parseUdpIpv4_mem]
  cases hparse : ((parseUdpIpv4 rte false).run f).val with
  | error e => exact Or.inl ⟨rfl, rfl⟩
  | ok v =>
      -- the parser returns the view of the frame, whose Ethernet header is at `0`
      obtain rfl := view_of_parseUdpIpv4 hparse
      cases hhop : N.lookup ip with
      | none =>
          left
          simp only [lookupNextHopMac, hhop]
          exact ⟨rfl, rfl⟩
      | some mac =>
          right
          refine ⟨mac, rfl, ?_⟩
          simp only [lookupNextHopMac, hhop, Traced.bind_mem, Traced.pure_mem]
          exact Frame.setL2_mem rfl fw.cfg.gatewayMac mac f

namespace Worker

variable (rte : Rte)

/-- `m` is the buffer of `e`, sent to `ip` as the gateway `g` resolves it. -/
def SentTo (g : VioletGW) (ip : UInt32) (e : ArpPendingEntry) (m : Mbuf) : Prop :=
  m.addr = e.m.addr ∧ ∃ mac, g.neighbors.lookup ip = some mac ∧
    m.frame = e.m.frame.withL2 g.fcfg.gatewayMac mac

/-- `e'` is the entry `e` after attempts to send it. -/
def StillWaits (e e' : ArpPendingEntry) : Prop :=
  e'.m.addr = e.m.addr ∧ e'.m.frame.SameButL2 e.m.frame

/-- One round of the flush loop: what it keeps is the entry, what it sends is the entry. -/
theorem flushEntry_cases (ip : UInt32) (now : UInt64) (cap : Nat)
    (s : Worker × List ArpPendingEntry) (e : ArpPendingEntry) :
    (flushEntry rte ip now cap s e).1.gw = s.1.gw ∧
    (flushEntry rte ip now cap s e).1.pool.next = s.1.pool.next ∧
    (∀ m ∈ (flushEntry rte ip now cap s e).1.tx.items, m ∈ s.1.tx.items ∨ SentTo s.1.gw ip e m) ∧
    ∀ e' ∈ (flushEntry rte ip now cap s e).2, e' ∈ s.2 ∨ StillWaits e e' := by
  rw [flushEntry]
  dsimp only
  have hfinish := s.1.gw.forwarder.finishL2_cases rte s.1.gw.neighbors ip e.m.frame
  generalize (s.1.gw.forwarder.finishL2 rte (some s.1.gw.neighbors) ip).run e.m.frame = r
    at hfinish ⊢
  have hkept : ∀ e' ∈ s.2 ++ [⟨⟨e.m.addr, r.mem⟩, e.enqueuedMs⟩],
      e' ∈ s.2 ∨ StillWaits e e' := by
    intro e' he'
    rcases List.mem_append.mp he' with hold | hnew
    · exact Or.inl hold
    · obtain rfl := List.mem_singleton.mp hnew
      refine Or.inr ⟨rfl, ?_⟩
      rcases hfinish with ⟨-, hmem⟩ | ⟨mac, -, hmem⟩
      · rw [hmem]
        exact fun _ _ => rfl
      · rw [hmem]
        exact fun _ _ => Frame.withL2_withL2 _ _ _ _ _
  split_ifs with htimeout hfailed hfull
  · exact ⟨rfl, rfl, fun _ hm => Or.inl hm, fun _ he => Or.inl he⟩
  · exact ⟨rfl, rfl, fun _ hm => Or.inl hm, hkept⟩
  · exact ⟨rfl, rfl, fun _ hm => Or.inl hm, hkept⟩
  · refine ⟨rfl, rfl, ?_, fun _ he => Or.inl he⟩
    intro m hm
    rcases List.mem_append.mp hm with hold | hnew
    · exact Or.inl hold
    · obtain rfl := List.mem_singleton.mp hnew
      rcases hfinish with ⟨hfalse, -⟩ | ⟨mac, hmac, hmem⟩
      · simp [hfalse] at hfailed
      · exact Or.inr ⟨rfl, mac, hmac, hmem⟩

theorem foldl_flushEntry_cases (ip : UInt32) (now : UInt64) (cap : Nat)
    (q : List ArpPendingEntry) :
    ∀ s : Worker × List ArpPendingEntry,
      (q.foldl (flushEntry rte ip now cap) s).1.gw = s.1.gw ∧
      (q.foldl (flushEntry rte ip now cap) s).1.pool.next = s.1.pool.next ∧
      (∀ m ∈ (q.foldl (flushEntry rte ip now cap) s).1.tx.items,
        m ∈ s.1.tx.items ∨ ∃ e ∈ q, SentTo s.1.gw ip e m) ∧
      ∀ e' ∈ (q.foldl (flushEntry rte ip now cap) s).2,
        e' ∈ s.2 ∨ ∃ e ∈ q, StillWaits e e' := by
  induction q with
  | nil => exact fun s => ⟨rfl, rfl, fun _ hm => Or.inl hm, fun _ he => Or.inl he⟩
  | cons e q ih =>
      intro s
      obtain ⟨hgw, hnext, hsent, hkept⟩ := flushEntry_cases rte ip now cap s e
      obtain ⟨hgw', hnext', hsent', hkept'⟩ := ih (flushEntry rte ip now cap s e)
      refine ⟨hgw'.trans hgw, hnext'.trans hnext, ?_, ?_⟩
      · intro m hm
        rcases hsent' m hm with hold | ⟨e₁, he₁, hto⟩
        · rcases hsent m hold with hold | hto
          · exact Or.inl hold
          · exact Or.inr ⟨e, List.mem_cons_self, hto⟩
        · rw [hgw] at hto
          exact Or.inr ⟨e₁, List.mem_cons_of_mem _ he₁, hto⟩
      · intro e' he'
        rcases hkept' e' he' with hold | ⟨e₁, he₁, hwait⟩
        · rcases hkept e' hold with hold | hwait
          · exact Or.inl hold
          · exact Or.inr ⟨e, List.mem_cons_self, hwait⟩
        · exact Or.inr ⟨e₁, List.mem_cons_of_mem _ he₁, hwait⟩

/-- What a flush for `ip` does: it sends packets of that queue, and what is in a queue afterwards was
in it before. -/
structure Flushes (ip : UInt32) (w w' : Worker) : Prop where
  next : w'.pool.next = w.pool.next
  sent : ∀ m ∈ w'.tx.items, m ∈ w.tx.items ∨ ∃ e ∈ w.queue ip, SentTo w.gw ip e m
  queue : ∀ ip' e', e' ∈ w'.queue ip' → ∃ e ∈ w.queue ip', StillWaits e e'

theorem flushLearned_flushes (w : Worker) (o : HandleOutcome) (now : UInt64) (cap : Nat) :
    Flushes o.learnedIp w (w.flushLearned rte o now cap) := by
  rcases w.flushLearned_cases rte o now with hidle | hloop
  · rw [hidle]
    exact ⟨rfl, fun _ hm => Or.inl hm, fun _ e he => ⟨e, he, rfl, fun _ _ => rfl⟩⟩
  · rw [hloop]
    obtain ⟨hgw, hnext, hsent, hkept⟩ :=
      foldl_flushEntry_cases rte o.learnedIp now cap (w.queue o.learnedIp) (w, [])
    generalize (w.queue o.learnedIp).foldl (flushEntry rte o.learnedIp now cap) (w, []) = s
      at hgw hnext hsent hkept ⊢
    have hframe : (storeRemaining o.learnedIp s).pool = s.1.pool ∧
        (storeRemaining o.learnedIp s).tx = s.1.tx := by
      rw [storeRemaining]
      split_ifs <;> exact ⟨rfl, rfl⟩
    refine ⟨?_, ?_, ?_⟩
    · rw [hframe.1]
      exact hnext
    · rw [hframe.2]
      exact hsent
    · intro ip' e' he'
      -- the queue of the address holds what remained; the others are as before
      rw [storeRemaining_queue] at he'
      split_ifs at he' with hip
      · rw [hip]
        rcases hkept e' he' with hnil | hwait
        · cases hnil
        · exact hwait
      · rw [queue, hgw] at he'
        exact ⟨e', he', rfl, fun _ _ => rfl⟩

/-! ## What becomes of the handled frame -/

/-- A probe is a new buffer. -/
theorem maybeProbeArp_fresh (w : Worker) (ip : UInt32) (now : UInt64) (buf : Option Frame)
    (cap : Nat) :
    w.pool.next ≤ (w.maybeProbeArp ip now buf cap).pool.next ∧
      ∀ m ∈ (w.maybeProbeArp ip now buf cap).tx.items, m ∈ w.tx.items ∨ w.pool.next ≤ m.addr := by
  have hprobe := w.maybeProbeArp_step ip now buf cap
  generalize w.maybeProbeArp ip now buf cap = w' at hprobe ⊢
  cases hprobe with
  | none => exact ⟨Nat.le_refl _, fun _ hm => Or.inl hm⟩
  | discarded probe _ => exact ⟨Nat.le_succ _, fun _ hm => Or.inl hm⟩
  | sent probe hfresh _ =>
      refine ⟨Nat.le_succ _, ?_⟩
      intro m hm
      rcases List.mem_append.mp hm with hold | hnew
      · exact Or.inl hold
      · obtain rfl := List.mem_singleton.mp hnew
        exact Or.inr hfresh.ge

theorem enqueuePending_queue {w : Worker} {ip ip' : UInt32} {m : Mbuf} {now : UInt64}
    {e : ArpPendingEntry} (he : e ∈ (w.enqueuePending ip m now).queue ip') :
    e ∈ w.queue ip' ∨ (ip' = ip ∧ e.m = m) := by
  rw [enqueuePending] at he
  split_ifs at he
  · exact Or.inl he
  · exact Or.inl he
  · rw [setPending, queue] at he
    dsimp only at he
    by_cases hip : ip' = ip
    · rw [hip, listAt_insert_self] at he
      rcases List.mem_append.mp he with hold | hnew
      · rw [hip]
        exact Or.inl hold
      · obtain rfl := List.mem_singleton.mp hnew
        exact Or.inr ⟨hip, rfl⟩
    · rw [listAt_insert_ne _ hip] at he
      exact Or.inl he

theorem enqueuePending_next (w : Worker) (ip : UInt32) (m : Mbuf) (now : UInt64) :
    (w.enqueuePending ip m now).pool.next = w.pool.next := by
  rw [enqueuePending]
  split_ifs <;> rfl

/-- What disposing of the buffer `m` with outcome `o` does to the queues and the transmit array. -/
structure Disposes (o : HandleOutcome) (m : Mbuf) (w w' : Worker) : Prop where
  next : w.pool.next ≤ w'.pool.next
  sent : ∀ m' ∈ w'.tx.items, m' ∈ w.tx.items ∨ m'.addr = m.addr ∨ w.pool.next ≤ m'.addr
  queue : ∀ ip e, e ∈ w'.queue ip → e ∈ w.queue ip ∨
    (o.result = .pendingArp ∧ ip = o.arpWaitIp ∧ e.m = m)

theorem dispose_disposes (w : Worker) (o : HandleOutcome) (m : Mbuf) (now : UInt64)
    (buf : Option Frame) (cap : Nat) : Disposes o m w (w.dispose o m now buf cap) := by
  have hpush : Disposes o m w (w.pushTx m) := by
    refine ⟨Nat.le_refl _, ?_, fun _ _ he => Or.inl he⟩
    intro m' hm'
    rcases List.mem_append.mp hm' with hold | hnew
    · exact Or.inl hold
    · obtain rfl := List.mem_singleton.mp hnew
      exact Or.inr (Or.inl rfl)
  rw [dispose]
  cases hresult : o.result with
  | drop => exact ⟨Nat.le_refl _, fun _ hm => Or.inl hm, fun _ _ he => Or.inl he⟩
  | pendingArp =>
      have hnext := w.enqueuePending_next o.arpWaitIp m now
      have htx := (w.enqueuePending_arrays o.arpWaitIp m now).tx
      obtain ⟨hnext', hsent⟩ :=
        (w.enqueuePending o.arpWaitIp m now).maybeProbeArp_fresh o.arpWaitIp now buf cap
      rw [hnext] at hnext' hsent
      rw [htx] at hsent
      refine ⟨hnext', fun m' hm' => (hsent m' hm').imp_right Or.inr, ?_⟩
      intro ip e he
      rw [queue, maybeProbeArp_arpPending] at he
      exact (enqueuePending_queue he).imp_right fun h => ⟨hresult, h⟩
  | txForward => exact hpush
  | txReverse => exact hpush
  | txArp => exact hpush

theorem SentTo.congr {g g' : VioletGW} (h : g.SameCore g') {ip : UInt32} {e : ArpPendingEntry}
    {m : Mbuf} (hsent : SentTo g ip e m) : SentTo g' ip e m := by
  rw [SentTo] at hsent ⊢
  rw [h.neighbors, h.fcfg]
  exact hsent

/-- What handling the received buffer `m` does to the queues and the transmit array. -/
structure Handles (now : UInt64) (m : Mbuf) (w w' : Worker) : Prop where
  next : w.pool.next ≤ w'.pool.next
  sent : ∀ m' ∈ w'.tx.items, m' ∈ w.tx.items ∨ m'.addr = m.addr ∨ w.pool.next ≤ m'.addr ∨
    ∃ ip, ∃ e ∈ w.queue ip, SentTo w'.gw ip e m'
  queue : ∀ ip e', e' ∈ w'.queue ip → (∃ e ∈ w.queue ip, StillWaits e e') ∨
    (((w.gw.handle rte now).run m.frame).val.1.result = .pendingArp ∧
      ip = ((w.gw.handle rte now).run m.frame).val.1.arpWaitIp ∧
      e'.m = ⟨m.addr, ((w.gw.handle rte now).run m.frame).mem⟩)

theorem handleRx_handles {w : Worker} (hinv : w.gw.sessions.Inv) (m : Mbuf) (now : UInt64)
    (buf : Option Frame) (cap : Nat) :
    Handles rte now m w (w.handleRx rte m now buf cap) := by
  have hcore := handleRx_core rte w m now buf cap
  have hpending := (w.gw.handle_cases rte hinv now m.frame).arpPending
  have hqueue : ∀ ip, ({ w with gw := ((w.gw.handle rte now).run m.frame).val.2 } : Worker).queue
      ip = w.queue ip := by
    intro ip
    simp only [queue]
    rw [hpending]
  have hflush := flushLearned_flushes rte
    { w with gw := ((w.gw.handle rte now).run m.frame).val.2 }
    ((w.gw.handle rte now).run m.frame).val.1 now cap
  have hdisp := dispose_disposes
    (({ w with gw := ((w.gw.handle rte now).run m.frame).val.2 } : Worker).flushLearned rte
      ((w.gw.handle rte now).run m.frame).val.1 now cap)
    ((w.gw.handle rte now).run m.frame).val.1
    ⟨m.addr, ((w.gw.handle rte now).run m.frame).mem⟩ now buf cap
  have hnext : _ = w.pool.next := hflush.next
  refine ⟨hnext.symm.le.trans hdisp.next, ?_, ?_⟩
  · intro m' hm'
    rcases hdisp.sent m' hm' with hold | hself | hfresh
    · rcases hflush.sent m' hold with hold | ⟨e, he, hto⟩
      · exact Or.inl hold
      · rw [hqueue] at he
        exact Or.inr (Or.inr (Or.inr ⟨_, e, he, hto.congr hcore⟩))
    · exact Or.inr (Or.inl hself)
    · exact Or.inr (Or.inr (Or.inl (hnext.symm.le.trans hfresh)))
  · intro ip e' he'
    rcases hdisp.queue ip e' he' with hold | hnew
    · obtain ⟨e, he, hwait⟩ := hflush.queue ip e' hold
      rw [hqueue] at he
      exact Or.inl ⟨e, he, hwait⟩
    · exact Or.inr hnew

/-! ## While a frame waits -/

/-- The buffer `addr` is not among the received ones, and where it waits, it waits for `ip` with the
frame `f`, but for the MAC addresses. -/
structure Waits (addr : Nat) (ip : UInt32) (f : Frame) (w : Worker) : Prop where
  acquired : addr < w.pool.next
  notReceived : ∀ m ∈ w.rx, m.addr ≠ addr
  queued : ∀ ip' e, e ∈ w.queue ip' → e.m.addr = addr → ip' = ip ∧ e.m.frame.SameButL2 f

variable {addr : Nat} {ip : UInt32} {f : Frame} {w : Worker}

/-- A step that takes no new buffer into a queue keeps a frame waiting. -/
theorem Waits.of_queues (h : w.Waits addr ip f) {w' : Worker} (hnext : w.pool.next ≤ w'.pool.next)
    (hrx : ∀ m ∈ w'.rx, m ∈ w.rx ∨ w.pool.next ≤ m.addr)
    (hqueue : ∀ ip' e', e' ∈ w'.queue ip' → e'.m.addr = addr → ∃ e ∈ w.queue ip', StillWaits e e') :
    w'.Waits addr ip f := by
  have hold := h.acquired
  refine ⟨Nat.lt_of_lt_of_le hold hnext, ?_, ?_⟩
  · intro m hm
    rcases hrx m hm with hm | hfresh
    · exact h.notReceived m hm
    · omega
  · intro ip' e' he' haddr
    obtain ⟨e, he, hsame, hframe⟩ := hqueue ip' e' he' haddr
    obtain ⟨hip, hf⟩ := h.queued ip' e he (hsame.symm.trans haddr)
    exact ⟨hip, hframe.trans hf⟩

theorem Waits.handleRx (h : w.Waits addr ip f) (hinv : w.gw.sessions.Inv) {m : Mbuf}
    (hm : m.addr ≠ addr) (now : UInt64) (buf : Option Frame) (cap : Nat) :
    (w.handleRx rte m now buf cap).Waits addr ip f := by
  have hhandles := handleRx_handles rte hinv m now buf cap
  refine h.of_queues hhandles.next ?_ ?_
  · intro m' hm'
    rw [handleRx_rx] at hm'
    exact Or.inl hm'
  · intro ip' e' he' haddr
    -- the handled buffer is another one, so it does not matter where it goes
    rcases hhandles.queue ip' e' he' with hwait | ⟨-, -, hself⟩
    · exact hwait
    · rw [hself] at haddr
      exact absurd haddr hm

theorem Waits.expirePending (h : w.Waits addr ip f) (now : UInt64) :
    (w.expirePending now).Waits addr ip f := by
  refine h.of_queues (Nat.le_refl _) (fun _ hm => Or.inl hm) ?_
  intro ip' e he _
  rw [expirePending_queue] at he
  exact ⟨e, List.mem_of_mem_filter he, rfl, fun _ _ => rfl⟩

theorem receive_addr (fs : List Frame) :
    ∀ (P : MbufPool) (m : Mbuf), m ∈ (P.receive fs).1 → P.next ≤ m.addr := by
  induction fs with
  | nil => exact fun _ _ hm => nomatch hm
  | cons f fs ih =>
      intro P m hm
      rcases List.mem_cons.mp hm with rfl | hrest
      · exact Nat.le_refl _
      · exact Nat.le_of_succ_le (ih _ m hrest)

theorem receive_next (fs : List Frame) : ∀ P : MbufPool, P.next ≤ (P.receive fs).2.next := by
  induction fs with
  | nil => exact fun _ => Nat.le_refl _
  | cons f fs ih =>
      intro P
      exact Nat.le_of_succ_le (ih { P with next := P.next + 1 })

theorem Waits.recvBurst (h : w.Waits addr ip f) (frames : List Frame) :
    (w.recvBurst frames).Waits addr ip f := by
  refine h.of_queues (receive_next frames w.pool) ?_ fun _ e he _ => ⟨e, he, rfl, fun _ _ => rfl⟩
  intro m hm
  rcases List.mem_append.mp hm with hold | hnew
  · exact Or.inl hold
  · exact Or.inr (receive_addr frames w.pool m hnew)

/-- A frame that waits keeps waiting, or is taken out of the queue for good. -/
theorem step_waits (h : w.Waits addr ip f) (hinv : w.gw.sessions.Inv) (e : Event) :
    (w.step rte e).Waits addr ip f := by
  -- most steps leave buffers and queues alone
  have hsame : ∀ {w' : Worker}, w'.pool.next = w.pool.next → w'.rx = w.rx →
      w'.gw.arpPending = w.gw.arpPending → w'.Waits addr ip f := by
    intro w' hnext hrx hpending
    apply h.of_queues hnext.symm.le (fun m hm => Or.inl (hrx ▸ hm))
    intro ip' e he _
    rw [queue, hpending] at he
    exact ⟨e, he, rfl, fun _ _ => rfl⟩
  cases e with
  | expireSessions now => exact hsame rfl rfl rfl
  | expireNeighbors now => exact hsame rfl rfl rfl
  | expirePending now => exact h.expirePending now
  | pollControl update => cases update <;> exact hsame rfl rfl rfl
  | setUpstreams endpoints => exact hsame rfl rfl rfl
  | setPolicy policy => exact hsame rfl rfl rfl
  | recvBurst frames => exact h.recvBurst frames
  | finishBurst accepted => exact hsame rfl rfl rfl
  | handleNext now buf =>
      cases hrx : w.rx with
      | nil =>
          simp only [step, hrx]
          exact h
      | cons m rest =>
          simp only [step, hrx]
          -- the buffer that waits is not the one that is handled
          have hm : m.addr ≠ addr := h.notReceived m (by simp [hrx])
          have hrest : ({ w with rx := rest } : Worker).Waits addr ip f :=
            ⟨h.acquired, fun k hk => h.notReceived k (by simp [hrx, hk]), h.queued⟩
          exact hrest.handleRx rte hinv hm now buf Config.ioRxBurst

theorem run_waits {cfg : ServiceConfig} (hinv : w.Inv cfg) (h : w.Waits addr ip f)
    (es : List Event) : (run (step rte) w es).Waits addr ip f :=
  (run_invariant (P := fun w : Worker => w.Inv cfg ∧ w.Waits addr ip f)
    (fun w e hw => ⟨step_inv rte w e hw.1, step_waits rte hw.2 hw.1.sessions e⟩) ⟨hinv, h⟩ es).2

/-! ## From the queue to the wire -/

theorem mem_held {e : ArpPendingEntry} {ip : UInt32} (he : e ∈ w.queue ip) : e.m.addr ∈ w.held :=
  List.mem_map.mpr ⟨e, mem_contents.mpr ⟨ip, he⟩, rfl⟩

/-- A buffer that is received was acquired, and it is neither received twice nor in a queue. -/
theorem Reachable.received {cfg : ServiceConfig} (hw : Reachable rte cfg w) {m : Mbuf}
    {rest : List Mbuf} (hrx : w.rx = m :: rest) :
    m.addr < w.pool.next ∧ (∀ k ∈ rest, k.addr ≠ m.addr) ∧ m.addr ∉ w.held := by
  have htally := hw.tally_le_due m.addr
  rw [tally, due, hrx, List.map_cons, List.count_cons_self] at htally
  refine ⟨?_, ?_, ?_⟩
  · by_contra hnot
    rw [if_neg hnot] at htally
    omega
  · intro k hk haddr
    have hmem := List.mem_map_of_mem (f := Mbuf.addr) hk
    rw [haddr] at hmem
    have hpos := List.count_pos_iff.mpr hmem
    split_ifs at htally <;> omega
  · intro hheld
    have hpos := List.count_pos_iff.mpr hheld
    split_ifs at htally <;> omega

/-- A buffer in a queue is not in the transmit array. -/
theorem Reachable.not_sent_of_held {cfg : ServiceConfig} (hw : Reachable rte cfg w) {m : Mbuf}
    (hm : m ∈ w.tx.items) : m.addr ∉ w.held := by
  intro hheld
  have htally := hw.tally_le m.addr
  have htx := List.count_pos_iff.mpr (List.mem_map_of_mem (f := Mbuf.addr) hm)
  have hpos := List.count_pos_iff.mpr hheld
  rw [tally] at htally
  omega

/-- A frame that has to wait, waits as `handle` has left it. -/
theorem waits_of_pending {cfg : ServiceConfig} (hw : Reachable rte cfg w) {m : Mbuf}
    {rest : List Mbuf} (hrx : w.rx = m :: rest) (now : UInt64) (buf : Option Frame) :
    (w.step rte (.handleNext now buf)).Waits m.addr
      ((w.gw.handle rte now).run m.frame).val.1.arpWaitIp ((w.gw.handle rte now).run m.frame).mem := by
  obtain ⟨hacquired, hrest, hheld⟩ := hw.received rte hrx
  have hhandles := handleRx_handles rte (w := { w with rx := rest }) hw.inv.sessions m now buf
    Config.ioRxBurst
  simp only [step, hrx]
  refine ⟨Nat.lt_of_lt_of_le hacquired hhandles.next, ?_, ?_⟩
  · intro k hk
    rw [handleRx_rx] at hk
    exact hrest k hk
  · intro ip' e' he' haddr
    -- an older entry with the same address would be a second copy of the buffer
    rcases hhandles.queue ip' e' he' with ⟨e, he, hsame, -⟩ | ⟨-, hip, hself⟩
    · refine absurd ?_ hheld
      rw [← haddr, hsame]
      exact mem_held (w := w) he
    · refine ⟨hip, ?_⟩
      rw [hself]
      exact fun _ _ => rfl

/-- A waiting buffer that a step puts into the transmit array was sent from its queue. -/
theorem Waits.sent {cfg : ServiceConfig} (hw : Reachable rte cfg w) (h : w.Waits addr ip f)
    (hheld : addr ∈ w.held) {now : UInt64} {buf : Option Frame} {m : Mbuf}
    (hm : m ∈ (w.step rte (.handleNext now buf)).tx.items) (haddr : m.addr = addr) :
    ∃ mac, (w.step rte (.handleNext now buf)).gw.neighbors.lookup ip = some mac ∧
      m.frame = f.withL2 w.gw.fcfg.gatewayMac mac := by
  have hnot : m ∉ w.tx.items := by
    intro hold
    exact hw.not_sent_of_held rte hold (haddr ▸ hheld)
  have hfcfg := step_fcfg rte hw.inv.sessions (.handleNext now buf)
  cases hrx : w.rx with
  | nil =>
      simp only [step, hrx] at hm
      exact absurd hm hnot
  | cons k rest =>
      simp only [step, hrx] at hm hfcfg ⊢
      have hhandles := handleRx_handles rte (w := { w with rx := rest }) hw.inv.sessions k now buf
        Config.ioRxBurst
      -- not sent before, not the handled frame, not a probe: so it comes from a queue
      rcases hhandles.sent m hm with hold | hself | hfresh | ⟨ip', e, he, hsame, mac, hmac, hframe⟩
      · exact absurd hold hnot
      · exact absurd (hself.symm.trans haddr) (h.notReceived k (by simp [hrx]))
      · have hacquired := h.acquired
        rw [← haddr] at hacquired
        exact absurd hacquired (Nat.not_lt.mpr hfresh)
      · obtain ⟨rfl, hf⟩ := h.queued ip' e he (hsame.symm.trans haddr)
        refine ⟨mac, hmac, ?_⟩
        rw [hframe, hfcfg]
        exact hf _ _

/-- Let a frame have to wait for its next hop, and let a later step, after any others, put it into the
transmit array, when the next hop is resolved to `mac`. Then what is sent is the frame that would have
been sent at once, had the next hop been resolved to `mac` from the beginning. -/
theorem pending_frame_eq_direct {cfg : ServiceConfig} (hw : Reachable rte cfg w) {m : Mbuf}
    {rest : List Mbuf} (hrx : w.rx = m :: rest) (now : UInt64) (buf : Option Frame)
    (hpend : ((w.gw.handle rte now).run m.frame).val.1.result = .pendingArp)
    {w₂ : Worker} (hlater : Reaches (step rte) (w.step rte (.handleNext now buf)) w₂)
    (hheld : m.addr ∈ w₂.held) (now₂ : UInt64) (buf₂ : Option Frame) {m₂ : Mbuf}
    (hsent : m₂ ∈ (w₂.step rte (.handleNext now₂ buf₂)).tx.items) (haddr : m₂.addr = m.addr)
    {mac : EtherAddr}
    (hmac : (w₂.step rte (.handleNext now₂ buf₂)).gw.neighbors.lookup
      ((w.gw.handle rte now).run m.frame).val.1.arpWaitIp = some mac)
    (N : NeighborTable)
    (hN : N.lookup ((w.gw.handle rte now).run m.frame).val.1.arpWaitIp = some mac) :
    ((({ w.gw with neighbors := N }.handle rte now).run m.frame).val.1.result = .txForward ∨
        (({ w.gw with neighbors := N }.handle rte now).run m.frame).val.1.result = .txReverse) ∧
      m₂.frame = (({ w.gw with neighbors := N }.handle rte now).run m.frame).mem := by
  obtain ⟨es, rfl⟩ := hlater
  have hinv := step_inv rte w (.handleNext now buf) hw.inv
  have hreach : Reachable rte cfg (run (step rte) (w.step rte (.handleNext now buf)) es) := by
    obtain ⟨shm, nicMac, hr⟩ := hw
    exact ⟨shm, nicMac, (hr.next _).run es⟩
  have hwaits := run_waits rte hinv (waits_of_pending rte hw hrx now buf) es
  -- the waiting frame and the direct one differ in their MAC addresses only
  obtain ⟨mac', hmac', hframe⟩ := hwaits.sent rte hreach hheld hsent haddr
  obtain rfl := Option.some.inj (hmac.symm.trans hmac')
  obtain ⟨hresult, hdirect⟩ := VioletGW.handle_resolved rte hw.inv.sessions now m.frame hpend hN
  refine ⟨hresult, ?_⟩
  rw [hframe, hdirect, run_fcfg rte hinv es, step_fcfg rte hw.inv.sessions (.handleNext now buf)]

/-- The lab gateway when its upstream is a new one that is not resolved, and a client frame and a frame
from that upstream have been received. -/
def labUnresolved : Worker := run (step Rte.dpdk) (start .lab none none)
  [.pollControl (some ⟨.mod, [⟨Config.ipv4From ![10, 0, 0, 2], 53⟩]⟩),
    .recvBurst [labClientFrame, .udp [10, 0, 0, 2] [192, 168, 1, 1] 53 53]]

theorem labUnresolved_reachable : Reachable Rte.dpdk .lab labUnresolved := ⟨none, none, _, rfl⟩

/-- A neighbor table that resolves the new upstream as the second frame does. -/
def labResolved : NeighborTable :=
  (NeighborTable.new 0).seed (Config.ipv4From ![10, 0, 0, 2]) ![2, 0, 0, 0, 0, 9]

/-- The client frame waits, the second frame releases it, and it is sent like a frame to a resolved
upstream. -/
theorem pending_frame_eq_direct_lab :
    ∃ m ∈ ((labUnresolved.step Rte.dpdk (.handleNext 0 none)).step Rte.dpdk
        (.handleNext 1 none)).tx.items,
      m.addr = 0 ∧ m.frame =
        (({ labUnresolved.gw with neighbors := labResolved }.handle Rte.dpdk 0).run
          labClientFrame).mem := by
  have hsent : ∃ m ∈ ((labUnresolved.step Rte.dpdk (.handleNext 0 none)).step Rte.dpdk
      (.handleNext 1 none)).tx.items, m.addr = 0 := by
    decide +kernel
  have hN : labResolved.lookup ((labUnresolved.gw.handle Rte.dpdk 0).run
      labClientFrame).val.1.arpWaitIp = some ![2, 0, 0, 0, 0, 9] := by
    decide +kernel
  obtain ⟨m, hm, haddr⟩ := hsent
  refine ⟨m, hm, haddr, ?_⟩
  exact (pending_frame_eq_direct Rte.dpdk labUnresolved_reachable rfl 0 none (by decide +kernel)
    (.refl _) (by decide +kernel) 1 none hm haddr (by decide +kernel) labResolved hN).2

end Worker

end VioletGateway
