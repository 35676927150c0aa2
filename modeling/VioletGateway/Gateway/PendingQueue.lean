import VioletGateway.Gateway.PendingPath

/-!
# The queues of waiting packets

What is in `arp_pending_` between two iterations of the loop: non-empty queues of bounded length, in
the order of arrival, filed under the destination address of their frames (`QueueOk`). A frame in a
queue parses, so `finish_l2` on it fails only if its address is not resolved, and a flush is a simple
function of the queue (`foldl_flushEntry_resolved`, `foldl_flushEntry_unresolved`): overdue packets
are freed, and of the others as many are sent as there is room for.
-/

set_option autoImplicit false

namespace VioletGateway

open Support

/-! ## Flushing a queue of frames that parse -/

/-- On a frame that parses, `finish_l2` is the lookup of the next hop and the L2 rewrite. -/
theorem Forwarder.finishL2_of_accepts {σ : Type} (rte : Rte) (fw : Forwarder σ) (N : NeighborTable)
    (ip : UInt32) {f : Frame} (h : f.Accepts) :
    ((fw.finishL2 rte (some N) ip).run f).val = (N.lookup ip).isSome ∧
      ((fw.finishL2 rte (some N) ip).run f).mem =
        match N.lookup ip with
        | some mac => f.withL2 fw.cfg.gatewayMac mac
        | none => f := by
  have hparse : ((parseUdpIpv4 rte false).run f).val = .ok f.view := parseUdpIpv4_of_accepts rte false h
  rw [finishL2]
  simp only [Traced.bind_val, Traced.bind_mem, parseUdpIpv4_mem, hparse, lookupNextHopMac]
  cases N.lookup ip with
  | none => exact ⟨rfl, rfl⟩
  | some mac =>
      simp only [Traced.bind_val, Traced.bind_mem, Traced.pure_val, Traced.pure_mem]
      exact ⟨rfl, Frame.setL2_mem rfl fw.cfg.gatewayMac mac f⟩

/-- The entry with the MAC addresses of its frame set. -/
def ArpPendingEntry.withL2 (e : ArpPendingEntry) (src dst : EtherAddr) : ArpPendingEntry :=
  { e with m := { e.m with frame := e.m.frame.withL2 src dst } }

namespace Worker

variable (rte : Rte) {ip : UInt32} (now : UInt64) (cap : Nat)

/-- The packets of a queue that have not waited too long. -/
def inTime (q : List ArpPendingEntry) : List ArpPendingEntry := q.filter fun e => !timedOut now e

/-! ## One round of the flush -/

section Round

variable {rte now cap} {w : Worker} {r : List ArpPendingEntry} {e : ArpPendingEntry}

theorem flushEntry_timedOut (h : timedOut now e = true) :
    flushEntry rte ip now cap (w, r) e = (w.free e.m, r) := by
  simp only [flushEntry, h, if_true]

theorem flushEntry_resolved (h : timedOut now e = false) (hacc : e.m.frame.Accepts)
    {mac : EtherAddr} (hmac : w.gw.neighbors.lookup ip = some mac) :
    flushEntry rte ip now cap (w, r) e =
      if w.tx.n ≥ cap then (w, r ++ [e.withL2 w.gw.fcfg.gatewayMac mac])
      else (w.pushTx (e.withL2 w.gw.fcfg.gatewayMac mac).m, r) := by
  obtain ⟨hval, hmem⟩ := w.gw.forwarder.finishL2_of_accepts rte w.gw.neighbors ip hacc
  rw [hmac] at hval hmem
  simp only [flushEntry, h, Bool.false_eq_true, if_false, hval, hmem, Option.isSome_some,
    Bool.not_true]
  rfl

theorem flushEntry_unresolved (h : timedOut now e = false) (hacc : e.m.frame.Accepts)
    (hnone : w.gw.neighbors.lookup ip = none) :
    flushEntry rte ip now cap (w, r) e = (w, r ++ [e]) := by
  obtain ⟨hval, hmem⟩ := w.gw.forwarder.finishL2_of_accepts rte w.gw.neighbors ip hacc
  rw [hnone] at hval hmem
  simp only [flushEntry, h, Bool.false_eq_true, if_false, hval, hmem, Option.isSome_none,
    Bool.not_false, if_true]

end Round

theorem inTime_cons_timedOut {e : ArpPendingEntry} (h : timedOut now e = true)
    (q : List ArpPendingEntry) : inTime now (e :: q) = inTime now q := by
  simp [inTime, h]

theorem inTime_cons_live {e : ArpPendingEntry} (h : timedOut now e = false)
    (q : List ArpPendingEntry) : inTime now (e :: q) = e :: inTime now q := by
  simp [inTime, h]

/-! ## A whole flush -/

/-- A flush for a resolved address frees what is overdue and sends the rest in order, as far as there
is room. -/
theorem foldl_flushEntry_resolved {mac : EtherAddr} (q : List ArpPendingEntry)
    (hq : ∀ e ∈ q, e.m.frame.Accepts) :
    ∀ (w : Worker) (r : List ArpPendingEntry), w.gw.neighbors.lookup ip = some mac →
      (q.foldl (flushEntry rte ip now cap) (w, r)).2 =
          r ++ ((inTime now q).map (·.withL2 w.gw.fcfg.gatewayMac mac)).drop (cap - w.tx.n) ∧
        (q.foldl (flushEntry rte ip now cap) (w, r)).1.tx.items =
          w.tx.items ++ (((inTime now q).map (·.withL2 w.gw.fcfg.gatewayMac mac)).take
            (cap - w.tx.n)).map ArpPendingEntry.m ∧
        (q.foldl (flushEntry rte ip now cap) (w, r)).1.pool =
          w.pool.freeBurst ((q.filter (timedOut now)).map ArpPendingEntry.m) := by
  induction q with
  | nil =>
      intro w r _
      simp [inTime, MbufPool.freeBurst]
  | cons e q ih =>
      intro w r hmac
      have ih := ih fun e' he' => hq e' (List.mem_cons_of_mem e he')
      rw [List.foldl_cons]
      cases hold : timedOut now e with
      | true =>
          rw [flushEntry_timedOut hold, inTime_cons_timedOut now hold, List.filter_cons_of_pos hold]
          obtain ⟨h₁, h₂, h₃⟩ := ih (w.free e.m) r hmac
          refine ⟨h₁, h₂, ?_⟩
          rw [h₃]
          simp [free, MbufPool.free, MbufPool.freeBurst]
      | false =>
          rw [flushEntry_resolved hold (hq e List.mem_cons_self) hmac, inTime_cons_live now hold,
            List.filter_cons_of_neg (Bool.eq_false_iff.mp hold), List.map_cons]
          by_cases hfull : w.tx.n ≥ cap
          · -- no room for this one, hence none for those behind it
            rw [if_pos hfull]
            obtain ⟨h₁, h₂, h₃⟩ := ih w (r ++ [e.withL2 w.gw.fcfg.gatewayMac mac]) hmac
            have hzero : cap - w.tx.n = 0 := by omega
            rw [hzero] at h₁ h₂ ⊢
            refine ⟨?_, ?_, h₃⟩
            · rw [h₁]
              simp
            · rw [h₂]
              simp
          · rw [if_neg hfull]
            obtain ⟨h₁, h₂, h₃⟩ := ih (w.pushTx (e.withL2 w.gw.fcfg.gatewayMac mac).m) r hmac
            have hn : (w.pushTx (e.withL2 w.gw.fcfg.gatewayMac mac).m).tx.n = w.tx.n + 1 := by
              simp [pushTx, OutArray.push, OutArray.n]
            have hsucc : cap - w.tx.n = (cap - (w.tx.n + 1)) + 1 := by omega
            rw [hn] at h₁ h₂
            rw [hsucc, List.drop_succ_cons, List.take_succ_cons]
            refine ⟨h₁, ?_, h₃⟩
            rw [h₂]
            simp [pushTx, OutArray.push]

/-- A flush for an address that is not resolved frees what is overdue and keeps the rest. -/
theorem foldl_flushEntry_unresolved (q : List ArpPendingEntry)
    (hq : ∀ e ∈ q, e.m.frame.Accepts) :
    ∀ (w : Worker) (r : List ArpPendingEntry), w.gw.neighbors.lookup ip = none →
      (q.foldl (flushEntry rte ip now cap) (w, r)).2 = r ++ inTime now q ∧
        (q.foldl (flushEntry rte ip now cap) (w, r)).1.tx = w.tx ∧
        (q.foldl (flushEntry rte ip now cap) (w, r)).1.pool =
          w.pool.freeBurst ((q.filter (timedOut now)).map ArpPendingEntry.m) := by
  induction q with
  | nil =>
      intro w r _
      simp [inTime, MbufPool.freeBurst]
  | cons e q ih =>
      intro w r hnone
      have ih := ih fun e' he' => hq e' (List.mem_cons_of_mem e he')
      rw [List.foldl_cons]
      cases hold : timedOut now e with
      | true =>
          rw [flushEntry_timedOut hold, inTime_cons_timedOut now hold, List.filter_cons_of_pos hold]
          obtain ⟨h₁, h₂, h₃⟩ := ih (w.free e.m) r hnone
          refine ⟨h₁, h₂, ?_⟩
          rw [h₃]
          simp [free, MbufPool.free, MbufPool.freeBurst]
      | false =>
          rw [flushEntry_unresolved hold (hq e List.mem_cons_self) hnone, inTime_cons_live now hold,
            List.filter_cons_of_neg (Bool.eq_false_iff.mp hold)]
          obtain ⟨h₁, h₂, h₃⟩ := ih w (r ++ [e]) hnone
          refine ⟨?_, h₂, h₃⟩
          rw [h₁, List.append_assoc, List.singleton_append]

end Worker

/-! ## The invariant of a queue -/

/-- A queue as it is filed under `ip`. The times along it are related by `R`: by `≤` if the clock does
not run backwards, by nothing in particular otherwise. -/
structure QueueOk (R : UInt64 → UInt64 → Prop) (ip : UInt32) (q : List ArpPendingEntry) : Prop where
  ip_ne : ip ≠ 0
  ne_nil : q ≠ []
  length_le : q.length ≤ Config.arpPendingMaxPerIp
  ordered : q.Pairwise fun e e' => R e.enqueuedMs e'.enqueuedMs
  accepts : ∀ e ∈ q, e.m.frame.Accepts
  dstIp : ∀ e ∈ q, e.m.frame.dstIp = ip

theorem Frame.Accepts.withL2 {f : Frame} (h : f.Accepts) (src dst : EtherAddr) :
    (f.withL2 src dst).Accepts ∧ (f.withL2 src dst).dstIp = f.dstIp := by
  have hends := Frame.endpoints_withL2 h.1.ihl_ge src dst
  exact ⟨(Frame.sameShape_withL2 h.1.ihl_ge src dst).accepts h, congrArg (fun x => x.2.1) hends⟩

namespace QueueOk

variable {R : UInt64 → UInt64 → Prop} {ip : UInt32} {q : List ArpPendingEntry}

/-- What remains of a queue is a queue, unless nothing does. -/
theorem sublist (h : QueueOk R ip q) {q' : List ArpPendingEntry} (hsub : q'.Sublist q)
    (hne : q' ≠ []) : QueueOk R ip q' where
  ip_ne := h.ip_ne
  ne_nil := hne
  length_le := hsub.length_le.trans h.length_le
  ordered := h.ordered.sublist hsub
  accepts := fun e he => h.accepts e (hsub.subset he)
  dstIp := fun e he => h.dstIp e (hsub.subset he)

/-- Setting MAC addresses does not disturb a queue. -/
theorem map_withL2 (h : QueueOk R ip q) (src dst : EtherAddr) :
    QueueOk R ip (q.map (·.withL2 src dst)) where
  ip_ne := h.ip_ne
  ne_nil := by simpa using h.ne_nil
  length_le := by simpa using h.length_le
  ordered := List.pairwise_map.mpr h.ordered
  accepts := by
    intro e he
    obtain ⟨e₀, he₀, rfl⟩ := List.mem_map.mp he
    exact ((h.accepts e₀ he₀).withL2 src dst).1
  dstIp := by
    intro e he
    obtain ⟨e₀, he₀, rfl⟩ := List.mem_map.mp he
    exact ((h.accepts e₀ he₀).withL2 src dst).2.trans (h.dstIp e₀ he₀)

/-- One more packet, not earlier than the others. -/
theorem concat (h : q = [] ∨ QueueOk R ip q) (hip : ip ≠ 0) {e : ArpPendingEntry}
    (hlen : ¬q.length ≥ Config.arpPendingMaxPerIp) (htime : ∀ e' ∈ q, R e'.enqueuedMs e.enqueuedMs)
    (haccepts : e.m.frame.Accepts) (hdst : e.m.frame.dstIp = ip) : QueueOk R ip (q ++ [e]) where
  ip_ne := hip
  ne_nil := by simp
  length_le := by
    rw [List.length_append, List.length_singleton]
    omega
  ordered := by
    rw [List.pairwise_append]
    refine ⟨?_, List.pairwise_singleton _ _, ?_⟩
    · rcases h with rfl | h
      · exact List.Pairwise.nil
      · exact h.ordered
    · intro a ha b hb
      rw [List.mem_singleton.mp hb]
      exact htime a ha
  accepts := by
    intro a ha
    rcases List.mem_append.mp ha with hold | hnew
    · rcases h with rfl | h
      · cases hold
      · exact h.accepts a hold
    · rw [List.mem_singleton.mp hnew]
      exact haccepts
  dstIp := by
    intro a ha
    rcases List.mem_append.mp ha with hold | hnew
    · rcases h with rfl | h
      · cases hold
      · exact h.dstIp a hold
    · rw [List.mem_singleton.mp hnew]
      exact hdst

end QueueOk

namespace Worker

/-- All queues are in order, and nothing in them is later than `t`. -/
def QueuesOk (R : UInt64 → UInt64 → Prop) (t : UInt64) (w : Worker) : Prop :=
  ∀ ip q, w.gw.arpPending.lookup ip = some q → QueueOk R ip q ∧ ∀ e ∈ q, R e.enqueuedMs t

variable {rte : Rte} {R : UInt64 → UInt64 → Prop} {w : Worker} {t : UInt64}

theorem QueuesOk.mono (h : w.QueuesOk R t) {t' : UInt64} (hle : ∀ {a}, R a t → R a t') :
    w.QueuesOk R t' :=
  fun ip q hq => ⟨(h ip q hq).1, fun e he => hle ((h ip q hq).2 e he)⟩

theorem QueuesOk.congr (h : w.QueuesOk R t) {w' : Worker}
    (heq : w'.gw.arpPending = w.gw.arpPending) : w'.QueuesOk R t := by
  rw [QueuesOk, heq]
  exact h

/-- The queue of an address is empty or in order. -/
theorem QueuesOk.queue (h : w.QueuesOk R t) (ip : UInt32) :
    (w.queue ip = [] ∨ QueueOk R ip (w.queue ip)) ∧ ∀ e ∈ w.queue ip, R e.enqueuedMs t := by
  unfold Worker.queue listAt
  cases hq : w.gw.arpPending.lookup ip with
  | none => exact ⟨Or.inl rfl, nofun⟩
  | some q => exact ⟨Or.inr (h ip q hq).1, (h ip q hq).2⟩

theorem QueuesOk.enqueuePending (h : w.QueuesOk R t) (hrefl : R t t) (ip : UInt32) (m : Mbuf)
    (haccepts : m.frame.Accepts) (hdst : m.frame.dstIp = ip) :
    (w.enqueuePending ip m t).QueuesOk R t := by
  rw [Worker.enqueuePending]
  split_ifs with hip hfull
  · exact h
  · exact h.congr rfl
  · intro ip' q hq
    by_cases hself : ip' = ip
    · obtain rfl : q = w.queue ip ++ [⟨m, t⟩] := by
        rw [hself] at hq
        exact (Option.some.inj ((AList.lookup_insert _).symm.trans hq)).symm
      obtain ⟨hqueue, htime⟩ := h.queue ip
      rw [hself]
      refine ⟨.concat hqueue hip hfull htime haccepts hdst, ?_⟩
      intro e he
      rcases List.mem_append.mp he with hold | hnew
      · exact htime e hold
      · rw [List.mem_singleton.mp hnew]
        exact hrefl
    · exact h ip' q ((AList.lookup_insert_ne hself).symm.trans hq)

theorem storeRemaining_lookup (ip ip' : UInt32) (s : Worker × List ArpPendingEntry) :
    (storeRemaining ip s).gw.arpPending.lookup ip' =
      if ip' = ip then (if s.2 = [] then none else some s.2)
      else s.1.gw.arpPending.lookup ip' := by
  rw [storeRemaining, setPending]
  split_ifs with hrest hip hip
  · rw [hip]
    exact AList.lookup_erase _ _
  · exact AList.lookup_erase_ne hip
  · rw [hip]
    exact AList.lookup_insert _
  · exact AList.lookup_insert_ne hip

/-- What a flush leaves of a queue. -/
theorem foldl_flushEntry_queueOk {ip : UInt32} {q : List ArpPendingEntry} (h : QueueOk R ip q)
    (htime : ∀ e ∈ q, R e.enqueuedMs t) (now : UInt64) (cap : Nat) (w : Worker)
    (hne : (q.foldl (flushEntry rte ip now cap) (w, [])).2 ≠ []) :
    QueueOk R ip (q.foldl (flushEntry rte ip now cap) (w, [])).2 ∧
      ∀ e ∈ (q.foldl (flushEntry rte ip now cap) (w, [])).2, R e.enqueuedMs t := by
  cases hmac : w.gw.neighbors.lookup ip with
  | none =>
      rw [(foldl_flushEntry_unresolved rte now cap q h.accepts w [] hmac).1, List.nil_append] at hne ⊢
      exact ⟨h.sublist List.filter_sublist hne, fun e he => htime e (List.mem_of_mem_filter he)⟩
  | some mac =>
      rw [(foldl_flushEntry_resolved rte now cap q h.accepts w [] hmac).1, List.nil_append,
        ← List.map_drop] at hne ⊢
      have hsub : ((inTime now q).drop (cap - w.tx.n)).Sublist q :=
        (List.drop_sublist _ _).trans List.filter_sublist
      refine ⟨(h.sublist hsub fun hnil => hne (by rw [hnil]; rfl)).map_withL2 _ _, ?_⟩
      intro e he
      obtain ⟨e₀, he₀, rfl⟩ := List.mem_map.mp he
      exact htime e₀ (hsub.subset he₀)

theorem QueuesOk.flushLearned (h : w.QueuesOk R t) (o : HandleOutcome) (now : UInt64)
    (cap : Nat) : (w.flushLearned rte o now cap).QueuesOk R t := by
  rcases w.flushLearned_cases rte o now with hidle | hloop
  · rw [hidle]
    exact h
  · rw [hloop]
    have hgw := foldl_flushEntry_gw rte o.learnedIp now cap (w.queue o.learnedIp) (w, [])
    intro ip q hq
    rw [storeRemaining_lookup] at hq
    split_ifs at hq with hip hrest
    · obtain rfl := Option.some.inj hq
      obtain ⟨hqueue, htime⟩ := h.queue o.learnedIp
      rw [hip]
      rcases hqueue with hnil | hok
      · rw [hnil] at hrest
        exact absurd rfl hrest
      · exact foldl_flushEntry_queueOk hok htime now cap w hrest
    · rw [hgw] at hq
      exact h ip q hq

theorem QueuesOk.expirePending (h : w.QueuesOk R t) (now : UInt64) :
    (w.expirePending now).QueuesOk R t := by
  intro ip q hq
  have hsweep : (mapMaybe (fun _ q => unexpired now q) w.gw.arpPending).lookup ip = some q := hq
  rw [lookup_mapMaybe, Option.bind_eq_some_iff] at hsweep
  obtain ⟨q₀, hq₀, hkept⟩ := hsweep
  rw [unexpired] at hkept
  split_ifs at hkept with hnil
  obtain rfl := Option.some.inj hkept
  obtain ⟨hok, htime⟩ := h ip q₀ hq₀
  exact ⟨hok.sublist List.filter_sublist hnil, fun e he => htime e (List.mem_of_mem_filter he)⟩

end Worker

/-! ## Frames that have to wait -/

/-- A frame that has to wait parses, and waits for its destination. -/
theorem Forwarder.HandleStep.pending_frame {σ : Type} {rte : Rte} {fw : Forwarder σ}
    {st st' : ForwardState σ} {now : UInt64} {f f' : Frame} {o : HandleOutcome}
    (hstep : fw.HandleStep rte st now f o st' f') (hpend : o.result = .pendingArp) :
    f'.Accepts ∧ f'.dstIp = o.arpWaitIp := by
  have hnatted : ∀ {ip : UInt32} {f₁ : Frame}, f₁.Accepts → ∀ (srcIp : UInt32)
      (srcPort dstPort : UInt16) (recompute : Bool),
      (f₁.natted rte srcIp ip srcPort dstPort recompute).Accepts ∧
        (f₁.natted rte srcIp ip srcPort dstPort recompute).dstIp = ip := by
    intro ip f₁ hacc srcIp srcPort dstPort recompute
    have hends := Frame.endpoints_natted hacc.1.ihl_ge rte srcIp ip srcPort dstPort recompute
    exact ⟨(Frame.sameShape_natted hacc.1.ihl_ge rte srcIp ip srcPort dstPort recompute).accepts hacc,
      congrArg (fun x => x.2.1) hends⟩
  cases hstep with
  | ignored => cases hpend
  | refused => cases hpend
  | unknown => cases hpend
  | forward hvip _ _ _ =>
      obtain ⟨hhop, hip⟩ := Forwarder.sendOutcome_pending (by decide) hpend
      rw [hip, hhop]
      exact hnatted hvip.1.accepts _ _ _ _
  | reverse hgw _ _ =>
      obtain ⟨hhop, hip⟩ := Forwarder.sendOutcome_pending (by decide) hpend
      rw [hip, hhop]
      exact hnatted hgw.1.accepts _ _ _ _

theorem VioletGW.HandleStep.pending_frame {rte : Rte} {g g' : VioletGW} {now : UInt64}
    {f f' : Frame} {o : HandleOutcome} (hstep : g.HandleStep rte now f o g' f')
    (hpend : o.result = .pendingArp) : f'.Accepts ∧ f'.dstIp = o.arpWaitIp := by
  cases hstep with
  | other => cases hpend
  | arp _ harp => cases harp <;> cases hpend
  | ipv4 _ hfwd => exact hfwd.pending_frame hpend

/-! ## Steps and runs -/

namespace Worker

variable {rte : Rte} {R : UInt64 → UInt64 → Prop} {w : Worker} {t : UInt64}

theorem QueuesOk.handleRx (h : w.QueuesOk R t) (hrefl : R t t) (hinv : w.gw.sessions.Inv) (m : Mbuf)
    (buf : Option Frame) (cap : Nat) : (w.handleRx rte m t buf cap).QueuesOk R t := by
  have hstep := w.gw.handle_cases rte hinv t m.frame
  have hflush : (({ w with gw := ((w.gw.handle rte t).run m.frame).val.2 } : Worker).flushLearned
      rte ((w.gw.handle rte t).run m.frame).val.1 t cap).QueuesOk R t :=
    QueuesOk.flushLearned (h.congr hstep.arpPending) _ t cap
  unfold Worker.handleRx
  dsimp only
  rw [Worker.dispose]
  cases hresult : ((w.gw.handle rte t).run m.frame).val.1.result with
  | drop => exact hflush.congr rfl
  | pendingArp =>
      obtain ⟨haccepts, hdst⟩ := hstep.pending_frame hresult
      exact (hflush.enqueuePending hrefl _ ⟨m.addr, ((w.gw.handle rte t).run m.frame).mem⟩ haccepts
        hdst).congr (maybeProbeArp_arpPending _ _ _ _ _)
  | txForward => exact hflush.congr rfl
  | txReverse => exact hflush.congr rfl
  | txArp => exact hflush.congr rfl

/-- The step is taken at time `t`, or has no time of its own. -/
def Event.At (t : UInt64) : Event → Prop
  | .expireSessions now | .expireNeighbors now | .expirePending now | .handleNext now _ => now = t
  | _ => True

theorem QueuesOk.step (h : w.QueuesOk R t) (hrefl : R t t) (hinv : w.gw.sessions.Inv) {e : Event}
    (he : e.At t) : (w.step rte e).QueuesOk R t := by
  cases e with
  | expirePending now => exact h.expirePending now
  | pollControl update => cases update <;> exact h
  | handleNext now buf =>
      obtain rfl : now = t := he
      cases hrx : w.rx with
      | nil =>
          simp only [Worker.step, hrx]
          exact h
      | cons m rest =>
          simp only [Worker.step, hrx]
          exact QueuesOk.handleRx (w := { w with rx := rest }) h hrefl hinv m buf Config.ioRxBurst
  | expireSessions now => exact h
  | expireNeighbors now => exact h
  | setUpstreams endpoints => exact h
  | setPolicy policy => exact h
  | recvBurst frames => exact h
  | finishBurst accepted => exact h

end Worker

namespace LoopState

variable (rte : Rte)

/-- All steps of an iteration are taken at the time that was read at its start. -/
theorem events_at (s : LoopState) (inp : LoopInput) : ∀ e ∈ s.events inp, e.At inp.nowMs := by
  intro e he
  rw [events, housekeepingEvents, burstEvents] at he
  simp only [List.mem_append, List.mem_ite_nil_right, List.mem_ite_nil_left, List.mem_cons,
    List.mem_map, List.not_mem_nil, or_false] at he
  rcases he with ((⟨-, rfl⟩ | ⟨-, rfl | rfl⟩) | ⟨-, rfl⟩) | ⟨-, (rfl | ⟨buf, -, rfl⟩) | rfl⟩ <;>
    first | rfl | trivial

/-- Between two iterations of the loop, under a clock that does not run backwards, every queue is in
order, and `finish_l2` on a frame in it fails only if the address is not resolved. -/
theorem pendingQueues_ok (cfg : ServiceConfig) (shm : Option CpUpdate) (nicMac : Option EtherAddr)
    (now : UInt64) (inputs : List LoopInput)
    (hclock : (inputs.map LoopInput.nowMs).Pairwise (· ≤ ·)) (ip : UInt32)
    (q : List ArpPendingEntry)
    (hq : (run (iterate rte) (start cfg shm nicMac now) inputs).worker.gw.arpPending.lookup ip =
      some q) :
    ip ≠ 0 ∧ 1 ≤ q.length ∧ q.length ≤ Config.arpPendingMaxPerIp ∧
      (q.map ArpPendingEntry.enqueuedMs).Pairwise (· ≤ ·) ∧
      ∀ e ∈ q, ((parseUdpIpv4 rte false).run e.m.frame).val = .ok e.m.frame.view ∧
        e.m.frame.dstIp = ip ∧
        ∀ (fw : Forwarder UpstreamTable) (N : NeighborTable),
          ((fw.finishL2 rte (some N) ip).run e.m.frame).val = (N.lookup ip).isSome := by
  have hrun : (run (iterate rte) (start cfg shm nicMac now) inputs).worker.Inv cfg ∧
      (run (iterate rte) (start cfg shm nicMac now) inputs).worker.QueuesOk (· ≤ ·)
        (.ofNat (2 ^ 64 - 1)) := by
    refine run_clocked LoopInput.nowMs (t := 0)
      (P := fun (t : UInt64) (s : LoopState) => s.worker.Inv cfg ∧ s.worker.QueuesOk (· ≤ ·) t)
      ?_ ?_ ?_ hclock ?_ ?_ ?_
    · exact fun hle h => ⟨h.1, h.2.mono fun h' => UInt64.le_trans h' hle⟩
    · intro s inp h
      rw [iterate_worker]
      exact run_invariant_of_mem (P := fun w : Worker => w.Inv cfg ∧ w.QueuesOk (· ≤ ·) inp.nowMs)
        (fun w e he hw => ⟨Worker.step_inv rte w e hw.1,
          hw.2.step (UInt64.le_refl _) hw.1.sessions (s.events_at inp e he)⟩) h
    · refine ⟨Worker.start_inv cfg shm nicMac, ?_⟩
      intro ip q hq
      cases nicMac <;> cases hq
    · intro inp _
      exact UInt64.le_iff_toNat_le.mpr (Nat.zero_le _)
    · intro inp _
      have hlt := inp.nowMs.toNat_lt
      rw [UInt64.le_iff_toNat_le]
      show inp.nowMs.toNat ≤ 2 ^ 64 - 1
      omega
    · decide
  have hok := (hrun.2 ip q hq).1
  refine ⟨hok.ip_ne, List.length_pos_iff.mpr hok.ne_nil, hok.length_le,
    List.pairwise_map.mpr hok.ordered, ?_⟩
  intro e he
  exact ⟨parseUdpIpv4_of_accepts rte false (hok.accepts e he), hok.dstIp e he,
    fun fw N => (fw.finishL2_of_accepts rte N ip (hok.accepts e he)).1⟩

/-- An update to an upstream that is not resolved, and two frames for it. -/
def labWaitInput : LoopInput where
  nowMs := 1000
  control := some ⟨.mod, [⟨Config.ipv4From ![10, 0, 0, 2], 53⟩]⟩
  rx := List.replicate 2 (Worker.labClientFrame, none)
  rx_le := by decide
  accepted := []

/-- Both frames wait for the upstream. -/
theorem pendingQueues_ok_lab :
    ∃ q, (run (iterate Rte.dpdk) (start .lab none none 0) [labWaitInput]).worker.gw.arpPending.lookup
        (Config.ipv4From ![10, 0, 0, 2]) = some q ∧ q.length = 2 ∧
      ∀ e ∈ q, e.m.frame.dstIp = Config.ipv4From ![10, 0, 0, 2] := by
  have hwait : ((run (iterate Rte.dpdk) (start .lab none none 0)
      [labWaitInput]).worker.gw.arpPending.lookup (Config.ipv4From ![10, 0, 0, 2])).map List.length =
        some 2 := by
    decide +kernel
  obtain ⟨q, hq, hlen⟩ := Option.map_eq_some_iff.mp hwait
  refine ⟨q, hq, hlen, ?_⟩
  intro e he
  exact ((pendingQueues_ok Rte.dpdk .lab none none 0 [labWaitInput] (by simp) _ q hq).2.2.2.2 e he).2.1

end LoopState

end VioletGateway
