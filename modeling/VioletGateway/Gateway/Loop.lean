import VioletGateway.Gateway.Custody

/-!
# Runs of the worker loop

One iteration of the loop is a run of worker events (`iterate_worker`), so what holds of every run of
events holds at every point of the loop. Between two iterations the arrays are empty (`iterate_idle`):
a buffer is then sent, freed or in a queue, or it is lost. `conserved_iff` says when none is.
-/

set_option autoImplicit false

namespace VioletGateway

open Support

/-! ## Iterations as runs of events -/

namespace LoopState

variable (rte : Rte) (s : LoopState)

/-- The timers that fire at the head of an iteration. -/
def housekeepingEvents (now : UInt64) (control : Option CpUpdate) : List Worker.Event :=
  (if now - s.lastExpireMs ≥ Config.sessionExpireIntervalMs then [.expireSessions now] else []) ++
  (if now - s.lastArpExpireMs ≥ Config.arpExpireIntervalMs then
    [.expireNeighbors now, .expirePending now] else []) ++
  (if now - s.lastCpPollMs ≥ Config.cpPollIntervalMs then [.pollControl control] else [])

/-- The events of a received burst. -/
def burstEvents (inp : LoopInput) : List Worker.Event :=
  if inp.rx = [] then []
  else [.recvBurst (inp.rx.map Prod.fst)] ++
    (inp.rx.map Prod.snd).map (.handleNext inp.nowMs) ++ [.finishBurst inp.accepted]

/-- The events of one iteration. -/
def events (inp : LoopInput) : List Worker.Event :=
  s.housekeepingEvents inp.nowMs inp.control ++ burstEvents inp

theorem housekeeping_worker (now : UInt64) (control : Option CpUpdate) :
    (s.housekeeping now control).worker =
      run (Worker.step rte) s.worker (s.housekeepingEvents now control) := by
  rw [housekeeping, housekeepingEvents]
  simp only [run_append]
  split_ifs <;> rfl

theorem handleBurst_eq_run (now : UInt64) (bufs : List (Option Frame)) :
    ∀ w : Worker, handleBurst rte now bufs w =
      run (Worker.step rte) w (bufs.map (.handleNext now)) := by
  induction bufs with
  | nil => exact fun _ => rfl
  | cons buf bufs ih =>
      intro w
      exact ih (w.step rte (.handleNext now buf))

/-- One iteration of the loop is the run of its events. -/
theorem iterate_worker (inp : LoopInput) :
    (s.iterate rte inp).worker = run (Worker.step rte) s.worker (s.events inp) := by
  rw [iterate, events, burstEvents]
  -- the timers come first, then the burst
  rw [run_append, ← housekeeping_worker]
  dsimp only
  split_ifs
  · rfl
  · rw [run_append, run_append, handleBurst_eq_run]
    rfl

end LoopState

/-! ## The arrays between iterations -/

namespace Worker

variable (rte : Rte) (w : Worker)

theorem dispose_rx (o : HandleOutcome) (m : Mbuf) (now : UInt64) (buf : Option Frame) (cap : Nat) :
    (w.dispose o m now buf cap).rx = w.rx := by
  rw [dispose]
  cases o.result with
  | pendingArp =>
      dsimp only
      rw [(maybeProbeArp_arrays _ _ _ _ _).rx, (enqueuePending_arrays _ _ _ _).rx]
  | drop => rfl
  | txForward => rfl
  | txReverse => rfl
  | txArp => rfl

theorem handleRx_rx (m : Mbuf) (now : UInt64) (buf : Option Frame) (cap : Nat) :
    (w.handleRx rte m now buf cap).rx = w.rx := by
  unfold handleRx
  dsimp only
  rw [dispose_rx, (flushLearned_arrays _ _ _ _ _).rx]

theorem step_handleNext_rx (now : UInt64) (buf : Option Frame) :
    (w.step rte (.handleNext now buf)).rx = w.rx.tail := by
  cases hrx : w.rx with
  | nil => simp only [step, hrx, List.tail_nil]
  | cons m rest =>
      simp only [step, hrx, List.tail_cons]
      exact handleRx_rx rte { w with rx := rest } m now buf Config.ioRxBurst

/-- The arrays of the loop are empty. -/
structure Idle : Prop where
  rx : w.rx = []
  tx : w.tx = {}
  drop : w.drop = {}

/-- Every buffer acquired so far is in exactly one place: handed to the NIC, freed, or in a queue. -/
def Conserved : Prop := (w.pool.sent ++ w.pool.freed ++ w.held).Perm (List.range w.pool.next)

theorem count_range (n a : Nat) : (List.range n).count a = due n a := by
  rw [due]
  split_ifs with h
  · exact List.count_eq_one_of_mem List.nodup_range (List.mem_range.mpr h)
  · exact List.count_eq_zero_of_not_mem fun hmem => h (List.mem_range.mp hmem)

/-- Between iterations, the buffers are conserved exactly if none is loose. -/
theorem conserved_iff_loose {w : Worker} (hidle : w.Idle) {loose : List Nat}
    (hb : w.Balanced loose) : w.Conserved ↔ loose = [] := by
  have hcount : ∀ a, (w.pool.sent ++ w.pool.freed ++ w.held).count a + loose.count a =
      (List.range w.pool.next).count a := by
    intro a
    rw [count_range, ← hb a]
    simp only [tally, hidle.rx, hidle.tx, hidle.drop, List.map_nil, List.count_nil,
      List.count_append]
    omega
  rw [Conserved, List.perm_iff_count]
  constructor
  · intro hperm
    rw [List.eq_nil_iff_forall_not_mem]
    intro a ha
    -- a loose buffer was acquired and is in none of the three places
    have hpos := List.count_pos_iff.mpr ha
    have h₁ := hcount a
    have h₂ := hperm a
    omega
  · rintro rfl a
    simpa using hcount a

end Worker

theorem MbufPool.length_receive (fs : List Frame) :
    ∀ P : MbufPool, (P.receive fs).1.length = fs.length := by
  induction fs with
  | nil => exact fun _ => rfl
  | cons f fs ih =>
      intro P
      simp only [MbufPool.receive, List.length_cons, ih]

namespace LoopState

variable (rte : Rte)

theorem housekeeping_idle {s : LoopState} (h : s.worker.Idle) (now : UInt64)
    (control : Option CpUpdate) : (s.housekeeping now control).worker.Idle := by
  rw [housekeeping]
  dsimp only
  split_ifs <;> exact ⟨h.rx, h.tx, h.drop⟩

theorem handleBurst_rx (now : UInt64) (bufs : List (Option Frame)) :
    ∀ w : Worker, (handleBurst rte now bufs w).rx = w.rx.drop bufs.length := by
  induction bufs with
  | nil => exact fun _ => rfl
  | cons buf bufs ih =>
      intro w
      rw [handleBurst, ih, Worker.step_handleNext_rx, List.length_cons, List.drop_tail]

/-- An iteration leaves the arrays empty. -/
theorem iterate_idle {s : LoopState} (h : s.worker.Idle) (inp : LoopInput) :
    (s.iterate rte inp).worker.Idle := by
  have hidle := housekeeping_idle h inp.nowMs inp.control
  rw [iterate]
  dsimp only
  split_ifs
  · exact hidle
  · refine ⟨?_, rfl, rfl⟩
    show (handleBurst rte inp.nowMs (inp.rx.map Prod.snd) _).rx = []
    rw [handleBurst_rx]
    -- there is one round of the loop for each received buffer
    apply List.drop_eq_nil_of_le
    simp only [Worker.recvBurst, hidle.rx, List.nil_append, MbufPool.length_receive,
      List.length_map, Nat.le_refl]

theorem start_idle (cfg : ServiceConfig) (shm : Option CpUpdate) (nicMac : Option EtherAddr)
    (now : UInt64) : (start cfg shm nicMac now).worker.Idle :=
  ⟨rfl, rfl, rfl⟩

theorem run_idle (cfg : ServiceConfig) (shm : Option CpUpdate) (nicMac : Option EtherAddr)
    (now : UInt64) (inputs : List LoopInput) :
    (run (iterate rte) (start cfg shm nicMac now) inputs).worker.Idle :=
  run_invariant (P := fun s : LoopState => s.worker.Idle) (fun _ inp h => iterate_idle rte h inp)
    (start_idle cfg shm nicMac now) inputs

/-! ## Conservation -/

/-- No frame of the iteration is a lost reply in the state in which it is handled. -/
def LosesNothing (s : LoopState) (inp : LoopInput) : Prop :=
  Along (Worker.step rte) (Worker.LosesNothing rte) s.worker (s.events inp)

theorem iterate_inv {cfg : ServiceConfig} (s : LoopState) (inp : LoopInput)
    (h : s.worker.Inv cfg) : (s.iterate rte inp).worker.Inv cfg := by
  rw [iterate_worker]
  exact run_invariant (Worker.step_inv rte) h _

theorem run_loop_balanced {cfg : ServiceConfig} (inputs : List LoopInput) :
    ∀ {s : LoopState} {loose : List Nat}, s.worker.Inv cfg → s.worker.Balanced loose →
      ∃ loose', (run (iterate rte) s inputs).worker.Balanced loose' ∧
        (loose' = [] ↔ loose = [] ∧ Along (iterate rte) (LosesNothing rte) s inputs) := by
  induction inputs with
  | nil =>
      intro s loose _ hb
      exact ⟨loose, hb, by simp [Along]⟩
  | cons inp inputs ih =>
      intro s loose h hb
      obtain ⟨loose₁, hb₁, hiff₁⟩ := Worker.run_balanced rte (s.events inp) h hb
      rw [← iterate_worker] at hb₁
      obtain ⟨loose₂, hb₂, hiff₂⟩ := ih (iterate_inv rte s inp h) hb₁
      refine ⟨loose₂, hb₂, ?_⟩
      rw [hiff₂, hiff₁, and_assoc]
      rfl

/-- After every run of the loop, whatever the clock, the frames, the allocations and the results of
`send_burst`, each buffer is in exactly one place if and only if no frame handled on the way was a
reply to a client without an address while that address was unresolved. -/
theorem conserved_iff (cfg : ServiceConfig) (shm : Option CpUpdate) (nicMac : Option EtherAddr)
    (now : UInt64) (inputs : List LoopInput) :
    (run (iterate rte) (start cfg shm nicMac now) inputs).worker.Conserved ↔
      Along (iterate rte) (LosesNothing rte) (start cfg shm nicMac now) inputs := by
  obtain ⟨loose, hb, hiff⟩ := run_loop_balanced rte inputs (Worker.start_inv cfg shm nicMac)
    (Worker.start_balanced cfg shm nicMac) (s := start cfg shm nicMac now)
  rw [Worker.conserved_iff_loose (run_idle rte cfg shm nicMac now inputs) hb, hiff]
  simp

/-- A frame from a client without an address, and the reply to it, in two bursts. -/
def labLossInputs : List LoopInput :=
  [{ nowMs := 0
     control := none
     rx := [(.udp [0, 0, 0, 0] [192, 168, 1, 100] 4000 53, none)]
     rx_le := by decide
     accepted := [1] },
   { nowMs := 1
     control := none
     rx := [(.udp [10, 0, 0, 1] [192, 168, 1, 10] 53 10000, none)]
     rx_le := by decide
     accepted := [1] }]

/-- The reply is neither sent nor freed nor queued. -/
theorem labLossInputs_not_conserved :
    ¬(run (iterate Rte.dpdk) (start .lab none none 0) labLossInputs).worker.Conserved := by
  rw [Worker.Conserved]
  decide +kernel

end LoopState

end VioletGateway
