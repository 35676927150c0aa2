import VioletGateway.Gateway.Neighbors
import VioletGateway.Gateway.PassiveLearning
import VioletGateway.Gateway.PendingQueue
import VioletGateway.Gateway.TxBound

/-!
# Packets that stay behind

An ARP reply releases the packets that wait for its sender, but only as far as there is room in the
array `tx`. What does not fit goes back into the queue, although its address is resolved now: no probe
is sent for it any more, and no later frame of the burst can make room. `released_iff` says when a
reply empties the queue.
-/

set_option autoImplicit false

namespace VioletGateway

open Support

namespace Worker

variable (rte : Rte) {w : Worker}

/-! ## What a burst does not take back -/

/-- Packets are added to the transmit array, and to those that were freed. -/
structure Extends (w w' : Worker) : Prop where
  tx : w.tx.items <+: w'.tx.items
  freed : w.pool.freed <+: w'.pool.freed

theorem Extends.refl (w : Worker) : Extends w w := ⟨List.prefix_rfl, List.prefix_rfl⟩

theorem Extends.trans {w' w'' : Worker} (h : Extends w w') (h' : Extends w' w'') : Extends w w'' :=
  ⟨h.tx.trans h'.tx, h.freed.trans h'.freed⟩

theorem Extends.n_le {w' : Worker} (h : Extends w w') : w.tx.n ≤ w'.tx.n := h.tx.length_le

theorem extends_pushTx (m : Mbuf) : Extends w (w.pushTx m) :=
  ⟨List.prefix_append _ _, List.prefix_rfl⟩

theorem extends_free (m : Mbuf) : Extends w (w.free m) :=
  ⟨List.prefix_rfl, List.prefix_append _ _⟩

theorem flushEntry_extends (ip : UInt32) (now : UInt64) (cap : Nat)
    (s : Worker × List ArpPendingEntry) (e : ArpPendingEntry) :
    Extends s.1 (flushEntry rte ip now cap s e).1 := by
  rw [flushEntry]
  dsimp only
  split_ifs
  · exact extends_free e.m
  · exact .refl _
  · exact .refl _
  · exact extends_pushTx _

theorem flushLearned_extends (w : Worker) (o : HandleOutcome) (now : UInt64) (cap : Nat) :
    Extends w (w.flushLearned rte o now cap) := by
  rcases w.flushLearned_cases rte o now with hidle | hloop
  · rw [hidle]
    exact .refl w
  · rw [hloop]
    have hfold : Extends w ((w.queue o.learnedIp).foldl (flushEntry rte o.learnedIp now cap)
        (w, [])).1 := by
      refine List.foldlRecOn (motive := fun u : Worker × _ => Extends w u.1) _ _ (.refl w) ?_
      intro u hu e _
      exact hu.trans (flushEntry_extends rte o.learnedIp now cap u e)
    rw [storeRemaining]
    split_ifs <;> exact ⟨hfold.tx, hfold.freed⟩

theorem maybeProbeArp_extends (w : Worker) (ip : UInt32) (now : UInt64) (buf : Option Frame)
    (cap : Nat) : Extends w (w.maybeProbeArp ip now buf cap) := by
  have hprobe := w.maybeProbeArp_step ip now buf cap
  generalize w.maybeProbeArp ip now buf cap = w' at hprobe ⊢
  cases hprobe with
  | none => exact .refl w
  | discarded m _ => exact ⟨List.prefix_rfl, List.prefix_append _ _⟩
  | sent m _ _ => exact ⟨List.prefix_append _ _, List.prefix_rfl⟩

theorem dispose_extends (w : Worker) (o : HandleOutcome) (m : Mbuf) (now : UInt64)
    (buf : Option Frame) (cap : Nat) : Extends w (w.dispose o m now buf cap) := by
  have henqueue : ∀ ip, Extends w (w.enqueuePending ip m now) := by
    intro ip
    rw [enqueuePending]
    split_ifs
    · exact .refl w
    · exact extends_free m
    · exact ⟨List.prefix_rfl, List.prefix_rfl⟩
  rw [dispose]
  cases o.result with
  | drop => exact ⟨List.prefix_rfl, List.prefix_rfl⟩
  | pendingArp => exact (henqueue _).trans (maybeProbeArp_extends _ _ now buf cap)
  | txForward => exact extends_pushTx m
  | txReverse => exact extends_pushTx m
  | txArp => exact extends_pushTx m

theorem handleRx_extends (w : Worker) (m : Mbuf) (now : UInt64) (buf : Option Frame) (cap : Nat) :
    Extends w (w.handleRx rte m now buf cap) := by
  have hflush := flushLearned_extends rte
    { w with gw := ((w.gw.handle rte now).run m.frame).val.2 }
    ((w.gw.handle rte now).run m.frame).val.1 now cap
  exact Extends.trans ⟨hflush.tx, hflush.freed⟩ (dispose_extends _ _ _ now buf cap)

end Worker

/-! ## Resolved addresses -/

/-- A frame that has to wait waits for an address that is not resolved after it was handled. -/
theorem VioletGW.HandleStep.unresolved {rte : Rte} {g g' : VioletGW} {now : UInt64}
    {f f' : Frame} {o : HandleOutcome} (hstep : g.HandleStep rte now f o g' f')
    (hpend : o.result = .pendingArp) : ¬g'.Resolves o.arpWaitIp := by
  cases hstep with
  | other => cases hpend
  | arp _ harp => cases harp <;> cases hpend
  | ipv4 _ hfwd =>
      have hnone : (g.learnFrom f now).neighbors.lookup _ = none := hfwd.unresolved rfl hpend
      intro hres
      exact absurd hnone (Option.isSome_iff_ne_none.mp hres)

/-- Frames only add to what is resolved. -/
theorem VioletGW.handle_resolves (rte : Rte) {g : VioletGW} {ip : UInt32} (h : g.Resolves ip)
    (now : UInt64) (f : Frame) : ((g.handle rte now).run f).val.2.Resolves ip := by
  have hlearn : ∀ ip' mac, ((g.neighbors.learn ip' mac now).lookup ip).isSome = true := fun ip' mac =>
    (NeighborTable.lookup_learn_isSome _ ip' mac now ip).mpr (Or.inl h)
  rw [Resolves, handle_neighbors]
  split_ifs
  · exact hlearn _ _
  · rw [NeighborTable.learnFrom]
    split_ifs
    · exact hlearn _ _
    · exact h

namespace Worker

variable (rte : Rte) {w : Worker} {ip : UInt32} {mac : EtherAddr}

/-- What becomes of the frame itself does not concern the queues of resolved addresses. -/
theorem dispose_queue (w : Worker) {o : HandleOutcome}
    (h : o.result = .pendingArp → o.arpWaitIp ≠ ip) (m : Mbuf) (now : UInt64) (buf : Option Frame)
    (cap : Nat) : (w.dispose o m now buf cap).queue ip = w.queue ip := by
  rw [dispose]
  cases hresult : o.result with
  | drop => rfl
  | pendingArp =>
      unfold queue listAt
      dsimp only
      rw [maybeProbeArp_arpPending, enqueuePending_lookup_ne _ (h hresult).symm]
  | txForward => rfl
  | txReverse => rfl
  | txArp => rfl

/-- The queue of an address that is resolved when the frame was handled: a flush for the address
leaves what is in time and does not fit, and otherwise nothing happens to it. -/
theorem handleRx_queue (hinv : w.gw.sessions.Inv) (hqueue : ∀ e ∈ w.queue ip, e.m.frame.Accepts)
    (hip : ip ≠ 0) (m : Mbuf) (now : UInt64) (buf : Option Frame) (cap : Nat)
    (hmac : ((w.gw.handle rte now).run m.frame).val.2.neighbors.lookup ip = some mac) :
    (w.handleRx rte m now buf cap).queue ip =
      if ((w.gw.handle rte now).run m.frame).val.1.learnedIp = ip then
        ((inTime now (w.queue ip)).map (·.withL2 w.gw.fcfg.gatewayMac mac)).drop (cap - w.tx.n)
      else w.queue ip := by
  have hstep := w.gw.handle_cases rte hinv now m.frame
  have hfcfg := hstep.fcfg
  have hpending := hstep.arpPending
  have hwait : ((w.gw.handle rte now).run m.frame).val.1.result = .pendingArp →
      ((w.gw.handle rte now).run m.frame).val.1.arpWaitIp ≠ ip := by
    rintro hpend rfl
    apply hstep.unresolved hpend
    rw [VioletGW.Resolves, hmac]
    rfl
  unfold handleRx
  dsimp only
  rw [dispose_queue _ hwait]
  generalize ((w.gw.handle rte now).run m.frame).val = r at hmac hfcfg hpending
  -- handling the frame has not touched the queues yet
  have hsame : ({ w with gw := r.2 } : Worker).queue ip = w.queue ip := by
    simp only [queue]
    rw [hpending]
  rw [flushLearned, flushPending]
  by_cases hself : r.1.learnedIp = ip
  · rw [hself, if_pos hip, if_neg hip, if_pos rfl, hsame]
    by_cases hnil : w.queue ip = []
    · rw [if_pos hnil, hsame, hnil]
      simp [inTime]
    · rw [if_neg hnil]
      have hloop := (foldl_flushEntry_resolved rte now cap (w.queue ip) hqueue
        ({ w with gw := r.2 } : Worker) [] hmac).1
      rw [hfcfg, List.nil_append] at hloop
      exact (storeRemaining_queue ip ip _).trans ((if_pos rfl).trans hloop)
  · rw [if_neg hself]
    split_ifs with hlearned hnil
    · exact hsame
    · refine (storeRemaining_queue r.1.learnedIp ip _).trans ((if_neg (Ne.symm hself)).trans ?_)
      exact (foldl_flushEntry_queue rte r.1.learnedIp ip now cap _ _).trans hsame
    · exact hsame

/-! ## The rest of the burst -/

/-- `ip` is resolved, and nothing waits for it. -/
def Clear (ip : UInt32) (w : Worker) : Prop := w.gw.Resolves ip ∧ w.queue ip = []

/-- `ip` is resolved, and a packet waits for it that is in time and has no place in the array. -/
def Stuck (ip : UInt32) (now : UInt64) (w : Worker) : Prop :=
  w.gw.Resolves ip ∧ Config.ioRxBurst ≤ w.tx.n ∧ inTime now (w.queue ip) ≠ []

/-- What is known of a worker at any time, whatever the clock: the invariant, and queues of frames
that parse. -/
def Sound (cfg : ServiceConfig) (w : Worker) : Prop :=
  w.Inv cfg ∧ w.QueuesOk (fun _ _ => True) 0

theorem step_sound {cfg : ServiceConfig} (w : Worker) (e : Event) (h : w.Sound cfg) :
    (w.step rte e).Sound cfg := by
  refine ⟨step_inv rte w e h.1, ?_⟩
  have hat : ∃ t, e.At t := by
    cases e <;> first | exact ⟨_, rfl⟩ | exact ⟨0, trivial⟩
  obtain ⟨t, ht⟩ := hat
  exact (QueuesOk.step (h.2.mono fun _ => trivial) trivial h.1.sessions ht).mono fun _ => trivial

theorem start_sound (cfg : ServiceConfig) (shm : Option CpUpdate) (nicMac : Option EtherAddr) :
    (start cfg shm nicMac).Sound cfg := by
  refine ⟨start_inv cfg shm nicMac, ?_⟩
  intro ip q hq
  cases nicMac <;> cases hq

theorem Reachable.sound {cfg : ServiceConfig} (hw : Reachable rte cfg w) : w.Sound cfg := by
  obtain ⟨shm, nicMac, hreach⟩ := hw
  exact hreach.invariant (step_sound rte) (start_sound cfg shm nicMac)

theorem Sound.accepts {cfg : ServiceConfig} (h : w.Sound cfg) (ip : UInt32) :
    ∀ e ∈ w.queue ip, e.m.frame.Accepts := by
  rcases (h.2.queue ip).1 with hnil | hok
  · rw [hnil]
    exact nofun
  · exact hok.accepts

theorem Sound.queue_length_le {cfg : ServiceConfig} (h : w.Sound cfg) (ip : UInt32) :
    (w.queue ip).length ≤ Config.arpPendingMaxPerIp := by
  rcases (h.2.queue ip).1 with hnil | hok
  · rw [hnil]
    exact Nat.zero_le _
  · exact hok.length_le

theorem Resolves.handleRx (h : w.gw.Resolves ip) (m : Mbuf) (now : UInt64) (buf : Option Frame)
    (cap : Nat) : (w.handleRx rte m now buf cap).gw.Resolves ip := by
  have hcore := handleRx_core rte w m now buf cap
  rw [VioletGW.Resolves, hcore.neighbors]
  exact VioletGW.handle_resolves rte h now m.frame

/-- Setting MAC addresses does not age a packet. -/
theorem inTime_map_withL2 {now : UInt64} {q : List ArpPendingEntry}
    (hq : ∀ e ∈ q, (!timedOut now e) = true) (src dst : EtherAddr) :
    inTime now (q.map (·.withL2 src dst)) = q.map (·.withL2 src dst) := by
  apply List.filter_eq_self.mpr
  intro e he
  obtain ⟨e₀, he₀, rfl⟩ := List.mem_map.mp he
  exact hq e₀ he₀

theorem Clear.handleRx (hinv : w.gw.sessions.Inv) (hqueue : ∀ e ∈ w.queue ip, e.m.frame.Accepts)
    (hip : ip ≠ 0) (h : w.Clear ip) (m : Mbuf) (now : UInt64) (buf : Option Frame) (cap : Nat) :
    (w.handleRx rte m now buf cap).Clear ip := by
  obtain ⟨mac, hmac⟩ := Option.isSome_iff_exists.mp (VioletGW.handle_resolves rte h.1 now m.frame)
  refine ⟨Resolves.handleRx rte h.1 m now buf cap, ?_⟩
  rw [handleRx_queue rte hinv hqueue hip m now buf cap hmac, h.2]
  split_ifs <;> simp [inTime]

theorem Stuck.handleRx (hinv : w.gw.sessions.Inv) (hqueue : ∀ e ∈ w.queue ip, e.m.frame.Accepts)
    (hip : ip ≠ 0) {now : UInt64} (h : w.Stuck ip now) (m : Mbuf) (buf : Option Frame) :
    (w.handleRx rte m now buf Config.ioRxBurst).Stuck ip now := by
  obtain ⟨hres, hfull, hwait⟩ := h
  obtain ⟨mac, hmac⟩ := Option.isSome_iff_exists.mp (VioletGW.handle_resolves rte hres now m.frame)
  refine ⟨Resolves.handleRx rte hres m now buf _, ?_, ?_⟩
  · exact hfull.trans (handleRx_extends rte w m now buf _).n_le
  · rw [handleRx_queue rte hinv hqueue hip m now buf _ hmac]
    split_ifs
    · -- a flush for a full array keeps everything that is in time
      rw [Nat.sub_eq_zero_of_le hfull, List.drop_zero, inTime_map_withL2]
      · simpa using hwait
      · exact fun e he => (List.mem_filter.mp he).2
    · exact hwait

/-- What handling a received buffer preserves, a burst preserves. -/
theorem handleBurst_invariant {cfg : ServiceConfig} {P : Worker → Prop} (now : UInt64)
    (hstep : ∀ (w : Worker) (m : Mbuf) (rest : List Mbuf) (buf : Option Frame), w.Sound cfg → P w →
      P ({ w with rx := rest }.handleRx rte m now buf Config.ioRxBurst))
    (bufs : List (Option Frame)) {w : Worker} (hw : w.Sound cfg) (h : P w) :
    P (LoopState.handleBurst rte now bufs w) := by
  induction bufs generalizing w with
  | nil => exact h
  | cons buf bufs ih =>
      apply ih (step_sound rte w _ hw)
      cases hrx : w.rx with
      | nil =>
          simp only [step, hrx]
          exact h
      | cons m rest =>
          simp only [step, hrx]
          exact hstep w m rest buf hw h

/-- Every packet that waits for `ip` in `w` is in the transmit array of `w'`, or it was overdue and is
freed, and nothing waits for `ip` in `w'`. -/
def Released (ip : UInt32) (now : UInt64) (w w' : Worker) : Prop :=
  w'.queue ip = [] ∧ ∀ e ∈ w.queue ip, (∃ m ∈ w'.tx.items, m.addr = e.m.addr) ∨
    (timedOut now e = true ∧ e.m.addr ∈ w'.pool.freed)

theorem Released.extends {now : UInt64} {w' w'' : Worker} (h : Released ip now w w')
    (hext : Extends w' w'') (hnil : w''.queue ip = []) : Released ip now w w'' := by
  refine ⟨hnil, fun e he => ?_⟩
  rcases h.2 e he with ⟨m, hm, haddr⟩ | ⟨hold, hfreed⟩
  · exact Or.inl ⟨m, hext.tx.subset hm, haddr⟩
  · exact Or.inr ⟨hold, hext.freed.subset hfreed⟩

/-- What a flush for a resolved address puts into the transmit array, and what it frees. -/
theorem flushPending_resolved (hqueue : ∀ e ∈ w.queue ip, e.m.frame.Accepts) (hip : ip ≠ 0)
    (now : UInt64) (cap : Nat) (hmac : w.gw.neighbors.lookup ip = some mac) :
    (w.flushPending rte ip now cap).tx.items =
        w.tx.items ++ (((inTime now (w.queue ip)).map (·.withL2 w.gw.fcfg.gatewayMac mac)).take
          (cap - w.tx.n)).map ArpPendingEntry.m ∧
      (w.flushPending rte ip now cap).pool =
        w.pool.freeBurst (((w.queue ip).filter (timedOut now)).map ArpPendingEntry.m) := by
  obtain ⟨-, htx, hpool⟩ := foldl_flushEntry_resolved rte now cap (w.queue ip) hqueue w [] hmac
  rw [flushPending, if_neg hip]
  by_cases hnil : w.queue ip = []
  · rw [if_pos hnil, hnil]
    simp [inTime, MbufPool.freeBurst]
  · rw [if_neg hnil]
    dsimp only
    split_ifs <;> exact ⟨htx, hpool⟩

/-- What an ARP reply does to the packets that wait for its sender. -/
theorem handleRx_reply (hinv : w.gw.sessions.Inv) (hqueue : ∀ e ∈ w.queue ip, e.m.frame.Accepts)
    {m : Mbuf} (hann : m.frame.Announces) (hsender : m.frame.arpSenderIp = ip) (now : UInt64)
    (buf : Option Frame) (cap : Nat) :
    (w.handleRx rte m now buf cap).gw.Resolves ip ∧ ∃ mac,
      (w.handleRx rte m now buf cap).queue ip =
        ((inTime now (w.queue ip)).drop (cap - w.tx.n)).map (·.withL2 w.gw.fcfg.gatewayMac mac) ∧
      (w.handleRx rte m now buf cap).tx.items =
        w.tx.items ++ (((inTime now (w.queue ip)).map (·.withL2 w.gw.fcfg.gatewayMac mac)).take
          (cap - w.tx.n)).map ArpPendingEntry.m ∧
      (w.handleRx rte m now buf cap).pool =
        w.pool.freeBurst (((w.queue ip).filter (timedOut now)).map ArpPendingEntry.m) := by
  have hip : ip ≠ 0 := hsender ▸ hann.2.1
  have hval := w.gw.handle_of_announces rte now hann
  rw [hsender] at hval
  obtain ⟨mac, hmac⟩ := Option.isSome_iff_exists.mp
    (w.gw.neighbors.lookup_learn_self ip m.frame.arpSenderMac now)
  have hmac' : ((w.gw.handle rte now).run m.frame).val.2.neighbors.lookup ip = some mac := by
    rw [hval]
    exact hmac
  refine ⟨?_, mac, ?_, ?_⟩
  · have hcore := handleRx_core rte w m now buf cap
    rw [VioletGW.Resolves, hcore.neighbors, hmac']
    rfl
  · rw [handleRx_queue rte hinv hqueue hip m now buf cap hmac', hval, if_pos rfl, List.map_drop]
  · -- the reply itself goes to the array `drop`
    have hflush := flushPending_resolved rte
      (w := { w with gw := { w.gw with
        neighbors := w.gw.neighbors.learn ip m.frame.arpSenderMac now } }) hqueue hip now cap hmac
    unfold handleRx
    dsimp only
    rw [hval]
    rw [flushLearned, if_pos hip]
    exact hflush

/-- A reply releases everything that waits for its sender if there is room for it. -/
theorem handleRx_reply_released (hinv : w.gw.sessions.Inv)
    (hqueue : ∀ e ∈ w.queue ip, e.m.frame.Accepts) {m : Mbuf} (hann : m.frame.Announces)
    (hsender : m.frame.arpSenderIp = ip) {now : UInt64} (buf : Option Frame) {cap : Nat}
    (hroom : (inTime now (w.queue ip)).length ≤ cap - w.tx.n) :
    (w.handleRx rte m now buf cap).Clear ip ∧ Released ip now w (w.handleRx rte m now buf cap) := by
  obtain ⟨hres, mac, hrest, htx, hpool⟩ := handleRx_reply rte hinv hqueue hann hsender now buf cap
  have hnil : (w.handleRx rte m now buf cap).queue ip = [] := by
    rw [hrest, List.drop_eq_nil_of_le hroom]
    rfl
  refine ⟨⟨hres, hnil⟩, hnil, ?_⟩
  intro e he
  cases hold : timedOut now e with
  | true =>
      refine Or.inr ⟨rfl, ?_⟩
      rw [hpool]
      refine List.mem_append_right _ (List.mem_map_of_mem (List.mem_map_of_mem ?_))
      exact List.mem_filter.mpr ⟨he, hold⟩
  | false =>
      refine Or.inl ⟨(e.withL2 w.gw.fcfg.gatewayMac mac).m, ?_, rfl⟩
      rw [htx, List.take_of_length_le (by simpa using hroom)]
      refine List.mem_append_right _ (List.mem_map_of_mem (List.mem_map_of_mem ?_))
      exact List.mem_filter.mpr ⟨he, by rw [hold]; rfl⟩

/-- A reply leaves a packet behind if there is not room for all. -/
theorem handleRx_reply_stuck (hinv : w.gw.sessions.Inv)
    (hqueue : ∀ e ∈ w.queue ip, e.m.frame.Accepts) {m : Mbuf} (hann : m.frame.Announces)
    (hsender : m.frame.arpSenderIp = ip) {now : UInt64} (buf : Option Frame)
    (hroom : ¬(inTime now (w.queue ip)).length ≤ Config.ioRxBurst - w.tx.n) :
    (w.handleRx rte m now buf Config.ioRxBurst).Stuck ip now := by
  obtain ⟨hres, mac, hrest, htx, -⟩ :=
    handleRx_reply rte hinv hqueue hann hsender now buf Config.ioRxBurst
  refine ⟨hres, ?_, ?_⟩
  · -- every slot of the array is taken
    have hn : w.tx.items.length = w.tx.n := rfl
    show Config.ioRxBurst ≤ (w.handleRx rte m now buf Config.ioRxBurst).tx.items.length
    rw [htx, List.length_append, List.length_map, List.length_take, List.length_map]
    omega
  · rw [hrest, inTime_map_withL2]
    · simpa [List.drop_eq_nil_iff] using hroom
    · exact fun e he => (List.mem_filter.mp (List.mem_of_mem_drop he)).2

end Worker

/-! ## Bursts -/

theorem MbufPool.receive_frames (fs : List Frame) :
    ∀ P : MbufPool, (P.receive fs).1.map Mbuf.frame = fs := by
  induction fs with
  | nil => exact fun _ => rfl
  | cons f fs ih =>
      intro P
      simp only [MbufPool.receive, List.map_cons, ih]

namespace LoopState

variable (rte : Rte)

/-- The worker when `k` frames of the burst are handled. -/
def handled (s : LoopState) (inp : LoopInput) (k : Nat) : Worker :=
  handleBurst rte inp.nowMs ((inp.rx.take k).map Prod.snd) (s.received inp)

theorem run_sound (cfg : ServiceConfig) (shm : Option CpUpdate) (nicMac : Option EtherAddr)
    (now : UInt64) (inputs : List LoopInput) :
    (run (iterate rte) (start cfg shm nicMac now) inputs).worker.Sound cfg := by
  refine run_invariant (P := fun s : LoopState => s.worker.Sound cfg) ?_ ?_ inputs
  · intro s inp h
    rw [iterate_worker]
    exact run_invariant (Worker.step_sound rte) h _
  · exact Worker.start_sound cfg shm nicMac

variable {s : LoopState} {inp : LoopInput} {cfg : ServiceConfig}

theorem handled_sound (inp : LoopInput) (h : s.worker.Sound cfg) (k : Nat) :
    (s.handled rte inp k).Sound cfg := by
  have hreceived : (s.received inp).Sound cfg := by
    rw [received, housekeeping_worker rte]
    exact Worker.step_sound rte _ (.recvBurst (inp.rx.map Prod.fst))
      (run_invariant (Worker.step_sound rte) h _)
  rw [handled, handleBurst_eq_run]
  exact run_invariant (Worker.step_sound rte) hreceived _

theorem received_frames (hidle : s.worker.Idle) (inp : LoopInput) :
    (s.received inp).rx.map Mbuf.frame = inp.rx.map Prod.fst := by
  show ((s.housekeeping inp.nowMs inp.control).worker.rx ++ _).map Mbuf.frame = _
  rw [(housekeeping_idle hidle inp.nowMs inp.control).rx, List.nil_append, MbufPool.receive_frames]

/-- When `k` frames are handled, the next received buffer holds the next frame. -/
theorem handled_rx (hidle : s.worker.Idle) {k : Nat} {f : Frame} {buf : Option Frame}
    (hk : inp.rx[k]? = some (f, buf)) :
    ∃ m rest, (s.handled rte inp k).rx = m :: rest ∧ m.frame = f := by
  obtain ⟨hlt, hget⟩ := List.getElem?_eq_some_iff.mp hk
  have hrx := received_frames hidle inp
  have hframes : (s.handled rte inp k).rx.map Mbuf.frame = (inp.rx.drop k).map Prod.fst := by
    rw [handled, handleBurst_rx, List.map_drop, hrx, List.length_map, List.length_take,
      Nat.min_eq_left hlt.le, List.map_drop]
  rw [List.drop_eq_getElem_cons hlt, hget, List.map_cons] at hframes
  obtain ⟨m, rest, hm, hframe, -⟩ := List.map_eq_cons_iff.mp hframes
  exact ⟨m, rest, hm, hframe⟩

/-- The burst goes on with the next received buffer. -/
theorem burst_eq_handled {k : Nat} {f : Frame} {buf : Option Frame}
    (hk : inp.rx[k]? = some (f, buf)) :
    s.burst rte inp = handleBurst rte inp.nowMs ((inp.rx.drop (k + 1)).map Prod.snd)
      ((s.handled rte inp k).step rte (.handleNext inp.nowMs buf)) := by
  obtain ⟨hlt, hget⟩ := List.getElem?_eq_some_iff.mp hk
  have hsplit : inp.rx = inp.rx.take k ++ (f, buf) :: inp.rx.drop (k + 1) := by
    rw [← hget, List.getElem_cons_drop, List.take_append_drop]
  rw [burst, handled]
  simp only [handleBurst_eq_run]
  nth_rewrite 1 [hsplit]
  rw [List.map_append, List.map_append, run_append]
  rfl

/-- In every state that the loop reaches, and for every ARP reply in every burst: at the end of the
burst no packet waits for the sender of the reply, and all that waited are sent or, if overdue, freed,
if and only if there was room in the array `tx` for those that were in time. -/
theorem released_iff (cfg : ServiceConfig) (shm : Option CpUpdate) (nicMac : Option EtherAddr)
    (now : UInt64) (inputs : List LoopInput) {s : LoopState}
    (hs : run (iterate rte) (start cfg shm nicMac now) inputs = s) (inp : LoopInput) (k : Nat)
    (f : Frame) (buf : Option Frame) (hk : inp.rx[k]? = some (f, buf)) (hann : f.Announces) :
    Worker.Released f.arpSenderIp inp.nowMs (s.handled rte inp k) (s.burst rte inp) ↔
      (Worker.inTime inp.nowMs ((s.handled rte inp k).queue f.arpSenderIp)).length ≤
        Config.ioRxBurst - (s.handled rte inp k).tx.n := by
  subst hs
  have hsound := handled_sound rte inp (run_sound rte cfg shm nicMac now inputs) k
  obtain ⟨m, rest, hrx, rfl⟩ := handled_rx rte (run_idle rte cfg shm nicMac now inputs) hk
  rw [burst_eq_handled rte hk]
  have hnext := Worker.step_sound rte _ (.handleNext inp.nowMs buf) hsound
  generalize handled rte (run (iterate rte) (start cfg shm nicMac now) inputs) inp k = w
    at hsound hrx hnext ⊢
  have hqueue := hsound.accepts m.frame.arpSenderIp
  have hip := hann.2.1
  simp only [Worker.step, hrx] at hnext ⊢
  constructor
  · intro hreleased
    by_contra hroom
    have hstuck := Worker.handleRx_reply_stuck rte (w := { w with rx := rest }) hsound.1.sessions
      hqueue hann rfl buf hroom
    have hend := Worker.handleBurst_invariant rte inp.nowMs
      (fun w m rest buf hw hstuck => Worker.Stuck.handleRx rte (w := { w with rx := rest })
        hw.1.sessions (hw.accepts _) hip hstuck m buf)
      ((inp.rx.drop (k + 1)).map Prod.snd) hnext hstuck
    apply hend.2.2
    rw [hreleased.1]
    rfl
  · intro hroom
    obtain ⟨hclear, hreleased⟩ := Worker.handleRx_reply_released rte (w := { w with rx := rest })
      hsound.1.sessions hqueue hann rfl buf hroom
    have hend := Worker.handleBurst_invariant rte inp.nowMs
      (fun w m rest buf hw hclear => Worker.Clear.handleRx rte (w := { w with rx := rest })
        hw.1.sessions (hw.accepts _) hip hclear m inp.nowMs buf _)
      ((inp.rx.drop (k + 1)).map Prod.snd) hnext hclear
    have hext := Worker.handleBurst_invariant rte inp.nowMs
      (P := Worker.Extends ({ w with rx := rest }.handleRx rte m inp.nowMs buf Config.ioRxBurst))
      (fun w m rest buf _ hext =>
        have hone := Worker.handleRx_extends rte { w with rx := rest } m inp.nowMs buf _
        hext.trans ⟨hone.tx, hone.freed⟩)
      ((inp.rx.drop (k + 1)).map Prod.snd) hnext (.refl _)
    exact hreleased.extends hext hend.2

/-- The ARP reply of the upstream for which the frames of `labWaitInput` and `labFillInput` wait, after
one more frame of the client. -/
def labArpInput : LoopInput where
  nowMs := 1001
  control := none
  rx := [(Worker.labClientFrame, none), (VioletGW.arpReplyFrom [10, 0, 0, 2], none)]
  rx_le := by decide
  accepted := []

/-- Three packets wait for the upstream, and the reply releases them. -/
theorem released_iff_lab :
    Worker.Released (Config.ipv4From ![10, 0, 0, 2]) 1001
      ((run (iterate Rte.dpdk) (start .lab none none 0) [labWaitInput]).handled Rte.dpdk labArpInput 1)
      ((run (iterate Rte.dpdk) (start .lab none none 0) [labWaitInput]).burst Rte.dpdk labArpInput) :=
  (released_iff Rte.dpdk .lab none none 0 [labWaitInput] rfl labArpInput 1 _ _ rfl (by decide)).mpr
    (by decide +kernel)

/-- Of 33 packets that wait for the upstream, the reply releases 32. -/
theorem labArpInput_not_released :
    labArpInput.rx[1]? = some (VioletGW.arpReplyFrom [10, 0, 0, 2], none) ∧
      (VioletGW.arpReplyFrom [10, 0, 0, 2]).Announces ∧
      ¬Worker.Released (VioletGW.arpReplyFrom [10, 0, 0, 2]).arpSenderIp 1001
        ((run (iterate Rte.dpdk) (start .lab none none 0) [labFillInput]).handled Rte.dpdk
          labArpInput 1)
        ((run (iterate Rte.dpdk) (start .lab none none 0) [labFillInput]).burst Rte.dpdk
          labArpInput) := by
  have hleft : (((run (iterate Rte.dpdk) (start .lab none none 0) [labFillInput]).burst Rte.dpdk
      labArpInput).queue (VioletGW.arpReplyFrom [10, 0, 0, 2]).arpSenderIp).length = 1 := by
    decide +kernel
  refine ⟨rfl, by decide, fun h => ?_⟩
  rw [h.1] at hleft
  cases hleft

end LoopState

end VioletGateway
