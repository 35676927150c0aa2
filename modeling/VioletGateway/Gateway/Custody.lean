import VioletGateway.Gateway.RoundTrip

/-!
# Custody of packet buffers

Every buffer that was received or allocated is somewhere: in one of the arrays of the loop, in a
queue, freed, or handed to the NIC. `Balanced w loose` is the balance sheet: each address below
`next` occurs exactly once in all these places and in `loose`, the buffers that the worker has in
hand or has lost. Each operation moves an entry from one place to another; the only way to lose a
buffer is to enqueue it for the address `0`.
-/

set_option autoImplicit false

namespace VioletGateway

open Support

namespace Worker

variable (w : Worker)

/-- The addresses of the buffers in the queues. -/
def held : List Nat := (contents w.gw.arpPending).map fun e => e.m.addr

/-- How often the buffer `a` occurs in the places where the worker keeps track of it. -/
def tally (a : Nat) : Nat :=
  (w.rx.map Mbuf.addr).count a + (w.tx.items.map Mbuf.addr).count a +
    (w.drop.items.map Mbuf.addr).count a + w.held.count a + w.pool.freed.count a +
      w.pool.sent.count a

/-- How often `a` occurs among the first `n` addresses. -/
def due (n a : Nat) : Nat := if a < n then 1 else 0

/-- Every buffer acquired so far occurs exactly once in the places of the worker and in `loose`. -/
def Balanced (loose : List Nat) : Prop := ∀ a, w.tally a + loose.count a = due w.pool.next a

variable {w} {loose : List Nat}

/-! ## Single moves -/

/-- The order of the loose buffers does not matter. -/
theorem Balanced.perm {loose' : List Nat} (h : w.Balanced loose) (hperm : loose.Perm loose') :
    w.Balanced loose' := by
  intro a
  rw [← hperm.count_eq a]
  exact h a

theorem Balanced.pushTx {m : Mbuf} (h : w.Balanced (m.addr :: loose)) :
    (w.pushTx m).Balanced loose := by
  intro a
  have ha := h a
  simp only [tally, Worker.pushTx, OutArray.push, List.map_append, List.map_cons, List.map_nil,
    List.count_append, List.count_cons, List.count_nil, held] at ha ⊢
  omega

theorem Balanced.pushDrop {m : Mbuf} (h : w.Balanced (m.addr :: loose)) :
    (w.pushDrop m).Balanced loose := by
  intro a
  have ha := h a
  simp only [tally, Worker.pushDrop, OutArray.push, List.map_append, List.map_cons, List.map_nil,
    List.count_append, List.count_cons, List.count_nil, held] at ha ⊢
  omega

theorem Balanced.free {m : Mbuf} (h : w.Balanced (m.addr :: loose)) :
    (w.free m).Balanced loose := by
  intro a
  have ha := h a
  simp only [tally, Worker.free, MbufPool.free, List.count_append, List.count_cons, List.count_nil,
    held] at ha ⊢
  omega

/-- A change of the gateway that keeps the queues keeps the balance. -/
theorem Balanced.setGw (h : w.Balanced loose) {g : VioletGW}
    (hg : g.arpPending = w.gw.arpPending) : ({ w with gw := g } : Worker).Balanced loose := by
  intro a
  have ha := h a
  simp only [tally, held, hg] at ha ⊢
  exact ha

/-- Replacing the queues moves the difference of their contents. -/
theorem Balanced.setPending (h : w.Balanced loose)
    {q : AList fun _ : UInt32 => List ArpPendingEntry} {loose' : List Nat}
    (hq : ((contents q).map (fun e => e.m.addr) ++ loose').Perm (w.held ++ loose)) :
    (w.setPending q).Balanced loose' := by
  intro a
  have ha := h a
  have hcount := hq.count_eq a
  simp only [List.count_append] at hcount
  simp only [tally, held, Worker.setPending] at ha hcount ⊢
  omega

/-! ## The queues -/

theorem Balanced.enqueuePending {m : Mbuf} (h : w.Balanced (m.addr :: loose)) {ip : UInt32}
    (hip : ip ≠ 0) (now : UInt64) : (w.enqueuePending ip m now).Balanced loose := by
  rw [Worker.enqueuePending, if_neg hip]
  split_ifs
  · exact h.free
  · apply h.setPending
    -- the queue of `ip` is taken out, extended and filed again
    rw [contents_insert, List.map_append, List.map_append, List.append_assoc, List.append_assoc]
    have hperm := (contents_perm_erase w.gw.arpPending ip).map fun e => e.m.addr
    rw [List.map_append] at hperm
    refine List.Perm.trans ?_ (hperm.symm.append_right _)
    rw [List.append_assoc]
    apply List.Perm.append_left _
    simp only [List.map_cons, List.map_nil, List.singleton_append]
    exact List.perm_middle.symm

theorem enqueuePending_of_zero {ip : UInt32} (hip : ip = 0) (m : Mbuf) (now : UInt64) :
    w.enqueuePending ip m now = w := if_pos hip

/-- A buffer that the mempool gives out is loose. -/
theorem Balanced.acquire (h : w.Balanced loose) : w.acquire.Balanced (w.pool.next :: loose) := by
  intro a
  have ha := h a
  have hdue : due (w.pool.next + 1) a = due w.pool.next a + if w.pool.next = a then 1 else 0 := by
    simp only [due]
    split_ifs <;> omega
  simp only [tally, held, Worker.acquire, List.count_cons, beq_iff_eq] at ha ⊢
  omega

theorem Balanced.maybeProbeArp (h : w.Balanced loose) (ip : UInt32) (now : UInt64)
    (buf : Option Frame) (cap : Nat) : (w.maybeProbeArp ip now buf cap).Balanced loose := by
  have hprobe := w.maybeProbeArp_step ip now buf cap
  generalize w.maybeProbeArp ip now buf cap = w' at hprobe ⊢
  cases hprobe with
  | none => exact h
  | discarded m hm =>
      have hacq := h.acquire
      rw [← hm] at hacq
      exact hacq.free
  | sent m hm _ =>
      have hacq := h.acquire
      rw [← hm] at hacq
      exact hacq.pushTx.setGw rfl

/-- The addresses of the buffers of a queue. -/
def addrs (q : List ArpPendingEntry) : List Nat := q.map fun e => e.m.addr

theorem addrs_append (q q' : List ArpPendingEntry) : addrs (q ++ q') = addrs q ++ addrs q' :=
  List.map_append

/-- One round of the flush loop, with the queue at hand taken out of the map: the packet is freed,
sent, or kept. -/
theorem Balanced.flushEntry {E : AList fun _ : UInt32 => List ArpPendingEntry} (rte : Rte)
    (ip : UInt32) (now : UInt64) (cap : Nat) {s : Worker × List ArpPendingEntry}
    {e : ArpPendingEntry}
    (h : (s.1.setPending E).Balanced (addrs s.2 ++ e.m.addr :: loose)) :
    ((flushEntry rte ip now cap s e).1.setPending E).Balanced
      (addrs (flushEntry rte ip now cap s e).2 ++ loose) := by
  have htaken : (s.1.setPending E).Balanced (e.m.addr :: (addrs s.2 ++ loose)) :=
    h.perm List.perm_middle
  -- a change of the frame does not move the buffer
  have hkept : ∀ f : Frame, (s.1.setPending E).Balanced
      (addrs (s.2 ++ [{ e with m := { e.m with frame := f } }]) ++ loose) := by
    intro f
    rw [addrs_append, List.append_assoc]
    exact h
  have hsent : ∀ f : Frame, ((s.1.pushTx { e.m with frame := f }).setPending E).Balanced
      (addrs s.2 ++ loose) := by
    intro f
    have hmoved : (s.1.setPending E).Balanced
        (Mbuf.addr { e.m with frame := f } :: (addrs s.2 ++ loose)) := htaken
    exact hmoved.pushTx
  rw [Worker.flushEntry]
  dsimp only
  split_ifs
  · exact htaken.free
  · exact hkept _
  · exact hkept _
  · exact hsent _

theorem Balanced.foldl_flushEntry {E : AList fun _ : UInt32 => List ArpPendingEntry} (rte : Rte)
    (ip : UInt32) (now : UInt64) (cap : Nat) (q : List ArpPendingEntry) :
    ∀ {s : Worker × List ArpPendingEntry},
      (s.1.setPending E).Balanced (addrs s.2 ++ (addrs q ++ loose)) →
      ((q.foldl (Worker.flushEntry rte ip now cap) s).1.setPending E).Balanced
        (addrs (q.foldl (Worker.flushEntry rte ip now cap) s).2 ++ loose) := by
  induction q with
  | nil =>
      intro s h
      exact h
  | cons e q ih =>
      intro s h
      exact ih (Balanced.flushEntry rte ip now cap h)

theorem Balanced.flushPending (h : w.Balanced loose) (rte : Rte) (ip : UInt32) (now : UInt64)
    (cap : Nat) : (w.flushPending rte ip now cap).Balanced loose := by
  -- take the queue out of the map, run the loop on it, and file what remains
  have hout : (w.setPending (w.gw.arpPending.erase ip)).Balanced (addrs (w.queue ip) ++ loose) := by
    apply h.setPending
    have hperm := (contents_perm_erase w.gw.arpPending ip).map fun e => e.m.addr
    rw [List.map_append] at hperm
    refine List.Perm.trans ?_ (hperm.symm.append_right loose)
    rw [List.append_assoc]
    exact List.perm_append_comm_assoc _ _ _
  have hloop := Balanced.foldl_flushEntry rte ip now cap (w.queue ip) (s := (w, [])) hout
  have hgw := foldl_flushEntry_gw rte ip now cap (w.queue ip) (w, [])
  rw [Worker.flushPending]
  generalize (w.queue ip).foldl (Worker.flushEntry rte ip now cap) (w, []) = s at hloop hgw ⊢
  dsimp only at hgw ⊢
  split_ifs with hzero hempty hrest
  · exact h
  · exact h
  · rw [hrest] at hloop
    rw [hgw]
    exact hloop
  · rw [hgw]
    apply Balanced.setPending hloop
    rw [contents_insert, List.map_append]
    show (addrs s.2 ++ addrs _ ++ loose).Perm (addrs _ ++ (addrs s.2 ++ loose))
    rw [List.append_assoc]
    exact List.perm_append_comm_assoc _ _ _

/-- `expire_pending` frees the packets that it takes out of the queues. -/
theorem Balanced.expirePending (h : w.Balanced loose) (now : UInt64) :
    (w.expirePending now).Balanced loose := by
  intro a
  have ha := h a
  have hcontents : contents (mapMaybe (fun _ q => unexpired now q) w.gw.arpPending) =
      (contents w.gw.arpPending).filter fun e => !timedOut now e :=
    contents_mapMaybe_filter _ _
  -- what is in the queues is freed or stays, according to its age
  have hsplit := ((List.filter_append_perm (timedOut now) (contents w.gw.arpPending)).map
    fun e => e.m.addr).count_eq a
  rw [List.map_append, List.count_append] at hsplit
  simp only [Worker.expirePending, Worker.setPending, MbufPool.freeBurst, tally, held, hcontents,
    List.count_append, List.map_map] at ha ⊢
  have hcomp : (Mbuf.addr ∘ ArpPendingEntry.m) = fun e : ArpPendingEntry => e.m.addr := rfl
  rw [hcomp]
  omega

/-! ## Receiving and sending -/

theorem Balanced.recvBurst (frames : List Frame) :
    ∀ {w : Worker}, w.Balanced loose → (w.recvBurst frames).Balanced loose := by
  induction frames with
  | nil =>
      intro w h
      simpa only [Worker.recvBurst, MbufPool.receive, List.append_nil] using h
  | cons f fs ih =>
      intro w h
      -- the first buffer gets the next address; the rest are received after it
      have hfirst : ({ w.acquire with rx := w.rx ++ [⟨w.pool.next, f⟩] } : Worker).Balanced
          loose := by
        intro a
        have ha := h.acquire a
        simp only [tally, held, Worker.acquire, List.map_append, List.map_cons, List.map_nil,
          List.count_append, List.count_cons, List.count_nil] at ha ⊢
        omega
      have hrest := ih hfirst
      simp only [Worker.recvBurst, Worker.acquire, MbufPool.receive, List.append_assoc,
        List.singleton_append] at hrest ⊢
      exact hrest

theorem sendLoop_append (accepted : List Nat) :
    ∀ items : List Mbuf, (sendLoop accepted items).1 ++ (sendLoop accepted items).2 = items := by
  induction accepted with
  | nil => exact fun _ => rfl
  | cons a accepted ih =>
      intro items
      rw [sendLoop]
      dsimp only
      split_ifs with hempty hzero
      · exact hempty.symm
      · rfl
      · rw [List.append_assoc, ih, List.take_append_drop]

theorem Balanced.finishBurst (h : w.Balanced loose) (accepted : List Nat) :
    (w.finishBurst accepted).Balanced loose := by
  intro a
  have ha := h a
  -- what the NIC takes and what is left are all of the array
  have hsend := congrArg (fun l => (l.map Mbuf.addr).count a) (sendLoop_append accepted w.tx.items)
  simp only [List.map_append, List.count_append] at hsend
  simp only [Worker.finishBurst, MbufPool.freeBurst, MbufPool.handOver, tally, held,
    List.count_append, List.map_nil, List.count_nil] at ha ⊢
  omega

/-! ## One handled frame -/

/-- The outcome makes the worker enqueue the frame for the address `0`, which loses it. -/
def Strands (o : HandleOutcome) : Prop := o.result = .pendingArp ∧ o.arpWaitIp = 0

instance (o : HandleOutcome) : Decidable (Strands o) := inferInstanceAs (Decidable (_ ∧ _))

theorem Balanced.flushLearned (h : w.Balanced loose) (rte : Rte) (o : HandleOutcome) (now : UInt64)
    (cap : Nat) : (w.flushLearned rte o now cap).Balanced loose := by
  rw [Worker.flushLearned]
  split_ifs
  · exact h.flushPending rte o.learnedIp now cap
  · exact h

theorem Balanced.dispose {m : Mbuf} (h : w.Balanced (m.addr :: loose)) (o : HandleOutcome)
    (now : UInt64) (buf : Option Frame) (cap : Nat) :
    (w.dispose o m now buf cap).Balanced (if Strands o then m.addr :: loose else loose) := by
  have hother : o.result ≠ .pendingArp → ¬Strands o := fun hne hs => hne hs.1
  rw [Worker.dispose]
  cases hresult : o.result with
  | drop =>
      rw [if_neg (hother (by simp [hresult]))]
      exact h.pushDrop
  | txForward =>
      rw [if_neg (hother (by simp [hresult]))]
      exact h.pushTx
  | txReverse =>
      rw [if_neg (hother (by simp [hresult]))]
      exact h.pushTx
  | txArp =>
      rw [if_neg (hother (by simp [hresult]))]
      exact h.pushTx
  | pendingArp =>
      -- the address `0` is where a buffer gets lost
      by_cases hip : o.arpWaitIp = 0
      · rw [if_pos ⟨hresult, hip⟩, enqueuePending_of_zero hip]
        exact h.maybeProbeArp o.arpWaitIp now buf cap
      · rw [if_neg fun hs => hip hs.2]
        exact (h.enqueuePending hip now).maybeProbeArp o.arpWaitIp now buf cap

/-- A handled frame ends up in one place, unless it is stranded. -/
theorem Balanced.handleRx (rte : Rte) {m : Mbuf} (h : w.Balanced (m.addr :: loose))
    (hinv : w.gw.sessions.Inv) (now : UInt64) (buf : Option Frame) (cap : Nat) :
    (w.handleRx rte m now buf cap).Balanced
      (if Strands ((w.gw.handle rte now).run m.frame).val.1 then m.addr :: loose else loose) := by
  -- handling does not touch the queues
  have hpending := (w.gw.handle_cases rte hinv now m.frame).arpPending
  rw [Worker.handleRx]
  generalize (w.gw.handle rte now).run m.frame = r at hpending ⊢
  have hflush : (({ w with gw := r.val.2 } : Worker).flushLearned rte r.val.1 now cap).Balanced
      (Mbuf.addr { m with frame := r.mem } :: loose) :=
    Balanced.flushLearned (h.setGw hpending) rte r.val.1 now cap
  exact hflush.dispose r.val.1 now buf cap

/-! ## Which frames are lost -/

end Worker

/-- The frame is a reply to a session whose client has the address `0.0.0.0`, which is not resolved. -/
def VioletGW.LostReply (rte : Rte) (g : VioletGW) (f : Frame) : Prop :=
  g.forwarder.ToGateway rte f ∧
    (∃ p s, g.sessions.lookupReverse f.flowKey = some p ∧ g.sessions.heap p = some s ∧
      s.clientIp = 0) ∧
    g.neighbors.lookup 0 = none

/-- Passive learning never learns the address `0`. -/
theorem NeighborTable.lookup_learnFrom_zero (N : NeighborTable) (f : Frame) (now : UInt64) :
    (N.learnFrom f now).lookup 0 = N.lookup 0 := by
  rw [NeighborTable.learnFrom]
  split_ifs with h
  · exact N.lookup_learn_ne _ now (Ne.symm h.2.1)
  · rfl

namespace Worker

variable {rte : Rte} {cfg : ServiceConfig} {w : Worker} {loose : List Nat}

theorem strands_sendOutcome (hop : Option EtherAddr) (ip learnedIp : UInt32) {sent : HandleResult}
    (hsent : sent ≠ .pendingArp) :
    Strands { Forwarder.sendOutcome hop ip sent with learnedIp := learnedIp } ↔
      hop = none ∧ ip = 0 := by
  cases hop with
  | none => exact ⟨fun h => ⟨rfl, h.2⟩, fun h => ⟨rfl, h.2⟩⟩
  | some mac => exact ⟨fun h => absurd h.1 hsent, fun h => nomatch h.1⟩

/-- The only frames that are lost are replies to a client without an address. -/
theorem strands_iff (rte : Rte) (h : w.Inv cfg) (now : UInt64) (f : Frame) :
    Strands ((w.gw.handle rte now).run f).val.1 ↔ w.gw.LostReply rte f := by
  have hstep := w.gw.handle_cases rte h.sessions now f
  generalize (w.gw.handle rte now).run f = out at hstep ⊢
  obtain ⟨⟨o, g⟩, f', log⟩ := out
  dsimp only at hstep ⊢
  have hdrop : ∀ {o : HandleOutcome}, o.result ≠ .pendingArp → ¬w.gw.LostReply rte f →
      (Strands o ↔ w.gw.LostReply rte f) :=
    fun hres hlost => ⟨fun hs => absurd hs.1 hres, fun hl => absurd hl hlost⟩
  cases hstep with
  | other hnot => exact hdrop nofun fun hl => hnot hl.1.1.hasType
  | arp hnot harp =>
      refine hdrop ?_ fun hl => hnot hl.1.1.hasType
      cases harp <;> exact nofun
  | ipv4 _ hfwd =>
      have hev := hfwd.evolves h.sessions
      cases hfwd with
      | ignored _ hgw => exact hdrop nofun fun hl => hgw hl.1
      | refused hvip _ => exact hdrop nofun fun hl => hl.1.2.1 hvip.2
      | @forward hvip p s _ hs _ =>
          -- the address of an upstream is never zero
          have hsend := fun learned => strands_sendOutcome (lookupNextHopMac
            (some (w.gw.neighbors.learnFrom f now)) s.upstreamIp w.gw.fcfg.upstreamMac) s.upstreamIp
            learned (by decide : HandleResult.txForward ≠ .pendingArp)
          have hup : s.upstreamIp ≠ 0 := by
            rcases hev.sessions p s hs with ⟨s₀, hs₀, hsame⟩ | hown
            · rw [hsame]
              exact (h.own p s₀ hs₀).2.2.2
            · exact hown.2.2.2
          constructor
          · intro hstrands
            exact absurd ((hsend _).mp hstrands).2 hup
          · exact fun hl => absurd hvip.2 hl.1.2.1
      | unknown _ hsess =>
          refine hdrop nofun ?_
          rintro ⟨-, ⟨p, s, hp, -⟩, -⟩
          exact nomatch hp.symm.trans hsess
      | @reverse hgw p s hsess hs =>
          have hsend := fun learned => strands_sendOutcome (lookupNextHopMac
            (some (w.gw.neighbors.learnFrom f now)) s.clientIp w.gw.fcfg.clientSideMac) s.clientIp
            learned (by decide : HandleResult.txReverse ≠ .pendingArp)
          apply (hsend _).trans
          constructor
          · rintro ⟨hhop, hclient⟩
            rw [hclient] at hhop
            refine ⟨hgw, ⟨p, s, hsess, hs, hclient⟩, ?_⟩
            rw [← NeighborTable.lookup_learnFrom_zero w.gw.neighbors f now]
            exact hhop
          · rintro ⟨-, ⟨p', s', hp', hs', hclient⟩, hzero⟩
            obtain rfl := Option.some.inj (hsess.symm.trans hp')
            obtain rfl := Option.some.inj (hs.symm.trans hs')
            refine ⟨?_, hclient⟩
            rw [hclient]
            exact (NeighborTable.lookup_learnFrom_zero w.gw.neighbors f now).trans hzero

/-! ## Steps and runs -/

/-- The step does not lose a buffer. -/
def LosesNothing (rte : Rte) (w : Worker) : Event → Prop
  | .handleNext _ _ => ∀ m rest, w.rx = m :: rest → ¬w.gw.LostReply rte m.frame
  | _ => True

/-- The balance after a step: what was lost before stays lost, and the step loses a buffer exactly if
it handles a lost reply. -/
theorem step_balanced (rte : Rte) (h : w.Inv cfg) (hb : w.Balanced loose) (e : Event) :
    ∃ loose', (w.step rte e).Balanced loose' ∧
      (loose' = [] ↔ loose = [] ∧ w.LosesNothing rte e) := by
  have hkeep : ∀ {v : Worker}, v.Balanced loose →
      ∃ loose', v.Balanced loose' ∧ (loose' = [] ↔ loose = [] ∧ True) :=
    fun hv => ⟨loose, hv, by simp⟩
  cases e with
  | expireSessions now => exact hkeep (hb.setGw rfl)
  | expireNeighbors now => exact hkeep (hb.setGw rfl)
  | expirePending now => exact hkeep (hb.expirePending now)
  | pollControl update =>
      cases update with
      | none => exact hkeep hb
      | some u => exact hkeep (hb.setGw rfl)
  | setUpstreams endpoints => exact hkeep (hb.setGw rfl)
  | setPolicy policy => exact hkeep (hb.setGw rfl)
  | recvBurst frames => exact hkeep (hb.recvBurst frames)
  | finishBurst accepted => exact hkeep (hb.finishBurst accepted)
  | handleNext now buf =>
      cases hrx : w.rx with
      | nil =>
          refine ⟨loose, ?_, ?_⟩
          · simp only [step, hrx]
            exact hb
          · simp [LosesNothing, hrx]
      | cons m rest =>
          -- the buffer is in hand while it is handled
          have hhand : ({ w with rx := rest } : Worker).Balanced (m.addr :: loose) := by
            intro a
            have ha := hb a
            simp only [tally, held, hrx, List.map_cons, List.count_cons] at ha ⊢
            omega
          have hrun := hhand.handleRx rte h.sessions now buf Config.ioRxBurst
          have hiff := strands_iff rte h now m.frame
          refine ⟨_, by simpa only [step, hrx] using hrun, ?_⟩
          have hlose : w.LosesNothing rte (.handleNext now buf) ↔ ¬w.gw.LostReply rte m.frame := by
            simp [LosesNothing, hrx]
          rw [hlose, ← hiff]
          split_ifs with hstrands
          · simp [hstrands]
          · simp [hstrands]

theorem run_balanced (rte : Rte) (es : List Event) :
    ∀ {w : Worker} {loose : List Nat}, w.Inv cfg → w.Balanced loose →
      ∃ loose', (run (step rte) w es).Balanced loose' ∧
        (loose' = [] ↔ loose = [] ∧ Along (step rte) (LosesNothing rte) w es) := by
  induction es with
  | nil =>
      intro w loose _ hb
      exact ⟨loose, hb, by simp [Along]⟩
  | cons e es ih =>
      intro w loose h hb
      obtain ⟨loose₁, hb₁, hiff₁⟩ := step_balanced rte h hb e
      obtain ⟨loose₂, hb₂, hiff₂⟩ := ih (step_inv rte w e h) hb₁
      refine ⟨loose₂, hb₂, ?_⟩
      rw [hiff₂, hiff₁, and_assoc]
      rfl

theorem start_balanced (cfg : ServiceConfig) (shm : Option CpUpdate) (nicMac : Option EtherAddr) :
    (start cfg shm nicMac).Balanced [] := by
  intro a
  cases nicMac <;> rfl

/-- No buffer is in two places, and none that was not acquired is in any. -/
theorem Reachable.tally_le_due {w : Worker} (hw : Reachable rte cfg w) (a : Nat) :
    w.tally a ≤ due w.pool.next a := by
  obtain ⟨shm, nicMac, es, rfl⟩ := hw
  obtain ⟨loose, hb, -⟩ :=
    run_balanced rte es (start_inv cfg shm nicMac) (start_balanced cfg shm nicMac)
  exact (Nat.le_add_right _ _).trans (hb a).le

theorem Reachable.tally_le {w : Worker} (hw : Reachable rte cfg w) (a : Nat) : w.tally a ≤ 1 := by
  apply (hw.tally_le_due a).trans
  rw [due]
  split_ifs <;> omega

end Worker

end VioletGateway
