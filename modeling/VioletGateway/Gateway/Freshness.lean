import VioletGateway.Gateway.Clock
import VioletGateway.Session.Capacity
import VioletGateway.Support.Sweep

/-!
# How stale the tables can be

The loop sweeps its tables at intervals: the sessions every second, the neighbors and the waiting
packets every minute. Each of the three is a store of time-stamped entries in the sense of
`Support.Swept`, so at the end of every iteration no entry is older than its timeout and one interval
(`ages_bounded`), and a gateway that receives nothing for that long gives back all its resources
(`quiet_drains`).
-/

set_option autoImplicit false

namespace VioletGateway

open Support

/-! ## What one step stamps -/

/-- A session that survives a sweep was not idle. -/
theorem SessionTable.isIdle_of_expire_heap {t : SessionTable} (h : t.Coherent) {now : UInt64}
    {p : SessionPtr} {s : Session} (hs : (t.expire now).2.heap p = some s) :
    t.heap p = some s ∧ t.isIdle now p = false := by
  rw [expire_eq h, eraseAll_heap] at hs
  split_ifs at hs with hp
  refine ⟨hs, Bool.eq_false_iff.mpr fun hidle => hp ?_⟩
  exact List.mem_filter.mpr ⟨(h.live_iff p).mpr ⟨s, hs⟩, hidle⟩

/-- Along allowed calls, the timeout is the one given to the constructor. -/
theorem SessionTable.idleTimeoutMs_of_reaches {t u : SessionTable} (hr : Reaches t u) :
    u.idleTimeoutMs = t.idleTimeoutMs := by
  induction hr with
  | refl => rfl
  | call c _ _ ih => exact (call_idleTimeoutMs _ c).trans ih

/-- The forwarder touches live sessions only, and creates a session only for a key that has none. -/
theorem Forwarder.HandleStep.reaches {σ : Type} {rte : Rte} {fw : Forwarder σ}
    {st st' : ForwardState σ} {now : UInt64} {f f' : Frame} {o : HandleOutcome}
    (hstep : fw.HandleStep rte st now f o st' f') (h : st.sessions.Inv) {t : SessionTable}
    (hr : t.Reaches st.sessions) : t.Reaches st'.sessions := by
  have hforward : t.Reaches (fw.sessionFor st f.flowKey now).2.sessions := by
    have hsession := fw.sessionFor_cases h f.flowKey now
    generalize fw.sessionFor st f.flowKey now = r at hsession ⊢
    cases hsession with
    | @found p s _ hs => exact .call (.touch (some p) now) hr ((h.coherent.live_iff p).mpr ⟨s, hs⟩)
    | refused => exact hr
    | @created hkey _ _ up _ _ _ => exact .call (.create f.flowKey up.ip up.port now) hr hkey
  cases hstep with
  | ignored => exact hr
  | refused => exact hforward
  | forward => exact hforward
  | unknown => exact hr
  | @reverse _ p s _ hs =>
      exact .call (.touch (some p) now) hr ((h.coherent.live_iff p).mpr ⟨s, hs⟩)

theorem VioletGW.HandleStep.reaches {rte : Rte} {g g' : VioletGW} {now : UInt64} {f f' : Frame}
    {o : HandleOutcome} (hstep : g.HandleStep rte now f o g' f') (h : g.sessions.Inv)
    {t : SessionTable} (hr : t.Reaches g.sessions) : t.Reaches g'.sessions := by
  cases hstep with
  | other => exact hr
  | arp => exact hr
  | ipv4 _ hfwd => exact hfwd.reaches h hr

/-- The table has the timeout, and static entries for no other address than `ip`. -/
structure NeighborTable.SeededWith (timeout : UInt64) (ip : UInt32) (N : NeighborTable) : Prop where
  entryTimeoutMs : N.entryTimeoutMs = timeout
  static : ∀ ip' e, N.entries.lookup ip' = some e → e.isStatic = true → ip' = ip

theorem NeighborTable.SeededWith.learn {timeout : UInt64} {ip : UInt32} {N : NeighborTable}
    (h : N.SeededWith timeout ip) (ip' : UInt32) (mac : EtherAddr) (now : UInt64) :
    (N.learn ip' mac now).SeededWith timeout ip := by
  constructor
  · rw [NeighborTable.learn]
    split_ifs <;> exact h.entryTimeoutMs
  · intro ip₁ e he hstatic
    rw [entries_learn] at he
    split_ifs at he
    -- what is learned is not static
    · obtain rfl := Option.some.inj he
      cases hstatic
    · exact h.static ip₁ e he hstatic

/-- A sweep leaves entries as they were. -/
theorem NeighborTable.entries_of_expire {N : NeighborTable} {now : UInt64} {ip : UInt32}
    {e : NeighborEntry} (he : (N.expire now).entries.lookup ip = some e) :
    N.entries.lookup ip = some e := by
  rw [entries_expire, Option.bind_eq_some_iff] at he
  obtain ⟨e₀, he₀, hkeep⟩ := he
  obtain rfl : e = e₀ := by
    rw [expireEntry] at hkeep
    split_ifs at hkeep <;> exact (Option.some.inj hkeep).symm
  exact he₀

namespace Worker

variable (rte : Rte) {w : Worker} {t : UInt64} {cfg : ServiceConfig}

/-- The tables come from those that `init_services` constructs. -/
structure Tables (cfg : ServiceConfig) (w : Worker) : Prop where
  sessions : SessionTable.Reaches (.new cfg.gatewayIp cfg.sessionIdleTimeoutMs) w.gw.sessions
  neighbors : w.gw.neighbors.SeededWith cfg.arpEntryTimeoutMs cfg.upstream0.ip

theorem start_tables (cfg : ServiceConfig) (shm : Option CpUpdate) (nicMac : Option EtherAddr) :
    (start cfg shm nicMac).Tables cfg := by
  refine ⟨by cases nicMac <;> exact .refl, by cases nicMac <;> rfl, ?_⟩
  intro ip e he _
  rw [start] at he
  dsimp only at he
  rw [VioletGW.init_neighbors, NeighborTable.entries_seed] at he
  split_ifs at he with hip
  · exact hip
  · cases he

theorem Tables.handleRx (h : w.Tables cfg) (hinv : w.gw.sessions.Inv) (m : Mbuf) (now : UInt64)
    (buf : Option Frame) (cap : Nat) : (w.handleRx rte m now buf cap).Tables cfg := by
  have hcore := handleRx_core rte w m now buf cap
  constructor
  · rw [hcore.sessions]
    exact (w.gw.handle_cases rte hinv now m.frame).reaches hinv h.sessions
  · rw [hcore.neighbors]
    exact VioletGW.handle_neighbors_invariant (fun _ ip mac hN => hN.learn ip mac now) rte
      h.neighbors m.frame

theorem Tables.step (h : w.Tables cfg) (hinv : w.gw.sessions.Inv) (e : Event) :
    (w.step rte e).Tables cfg := by
  cases e with
  | expireSessions now => exact ⟨.call (.expire now) h.sessions trivial, h.neighbors⟩
  | expireNeighbors now =>
      refine ⟨h.sessions, h.neighbors.entryTimeoutMs, ?_⟩
      exact fun ip e he => h.neighbors.static ip e (NeighborTable.entries_of_expire he)
  | pollControl update => cases update <;> exact ⟨h.sessions, h.neighbors⟩
  | handleNext now buf =>
      cases hrx : w.rx with
      | nil =>
          simp only [Worker.step, hrx]
          exact h
      | cons m rest =>
          simp only [Worker.step, hrx]
          exact Tables.handleRx rte (w := { w with rx := rest }) ⟨h.sessions, h.neighbors⟩ hinv m now
            buf Config.ioRxBurst
  | expirePending now => exact ⟨h.sessions, h.neighbors⟩
  | setUpstreams endpoints => exact ⟨h.sessions, h.neighbors⟩
  | setPolicy policy => exact ⟨h.sessions, h.neighbors⟩
  | recvBurst frames => exact ⟨h.sessions, h.neighbors⟩
  | finishBurst accepted => exact ⟨h.sessions, h.neighbors⟩

theorem Tables.idleTimeoutMs (h : w.Tables cfg) :
    w.gw.sessions.idleTimeoutMs = cfg.sessionIdleTimeoutMs :=
  SessionTable.idleTimeoutMs_of_reaches h.sessions

/-- When the sessions were active last. -/
def sessionStamps (w : Worker) : Set ℕ :=
  {n | ∃ p s, w.gw.sessions.heap p = some s ∧ s.lastActiveMs.toNat = n}

/-- When the learned neighbors were seen last. -/
def neighborStamps (w : Worker) : Set ℕ :=
  {n | ∃ ip e, w.gw.neighbors.entries.lookup ip = some e ∧ e.isStatic = false ∧
    e.lastSeenMs.toNat = n}

/-- Since when the packets in the queues wait. -/
def pendingStamps (w : Worker) : Set ℕ := {n | ∃ ip, ∃ e ∈ w.queue ip, e.enqueuedMs.toNat = n}

theorem Stamped.sessionStamps_le (h : w.Stamped t) : ∀ n ∈ w.sessionStamps, n ≤ t.toNat := by
  rintro n ⟨p, s, hs, rfl⟩
  exact UInt64.le_iff_toNat_le.mp (h.sessions p s hs)

theorem Stamped.neighborStamps_le (h : w.Stamped t) : ∀ n ∈ w.neighborStamps, n ≤ t.toNat := by
  rintro n ⟨ip, e, he, -, rfl⟩
  exact UInt64.le_iff_toNat_le.mp (h.neighbors ip e he)

theorem Stamped.pendingStamps_le (h : w.Stamped t) : ∀ n ∈ w.pendingStamps, n ≤ t.toNat := by
  rintro n ⟨ip, e, he, rfl⟩
  exact UInt64.le_iff_toNat_le.mp ((h.pending.queue ip).2 e he)

/-- Nothing is stamped between `w` and `w'`. -/
structure Ages (w w' : Worker) : Prop where
  sessions : w'.sessionStamps ⊆ w.sessionStamps
  neighbors : w'.neighborStamps ⊆ w.neighborStamps
  pending : w'.pendingStamps ⊆ w.pendingStamps

theorem Ages.refl (w : Worker) : Ages w w := ⟨subset_rfl, subset_rfl, subset_rfl⟩

theorem Ages.trans {w w' w'' : Worker} (h : Ages w w') (h' : Ages w' w'') : Ages w w'' :=
  ⟨h'.sessions.trans h.sessions, h'.neighbors.trans h.neighbors, h'.pending.trans h.pending⟩

/-- The step handles no frame. -/
def Event.Quiet : Event → Prop
  | .handleNext _ _ => False
  | _ => True

/-- Only frames are stamped, and what they use. -/
theorem Ages.of_quiet (hinv : w.gw.sessions.Inv) {e : Event} (he : e.Quiet) :
    Ages w (w.step rte e) := by
  have hrest := Ages.refl w
  cases e with
  | expireSessions now =>
      refine ⟨?_, hrest.neighbors, hrest.pending⟩
      rintro n ⟨p, s, hs, rfl⟩
      exact ⟨p, s, (SessionTable.isIdle_of_expire_heap hinv.coherent hs).1, rfl⟩
  | expireNeighbors now =>
      refine ⟨hrest.sessions, ?_, hrest.pending⟩
      rintro n ⟨ip, e, he, hdyn, rfl⟩
      exact ⟨ip, e, NeighborTable.entries_of_expire he, hdyn, rfl⟩
  | expirePending now =>
      refine ⟨hrest.sessions, hrest.neighbors, ?_⟩
      rintro n ⟨ip, e, he, rfl⟩
      rw [Worker.step, expirePending_queue] at he
      exact ⟨ip, e, List.mem_of_mem_filter he, rfl⟩
  | pollControl update => cases update <;> exact ⟨hrest.sessions, hrest.neighbors, hrest.pending⟩
  | handleNext now buf => exact he.elim
  | setUpstreams endpoints => exact ⟨hrest.sessions, hrest.neighbors, hrest.pending⟩
  | setPolicy policy => exact ⟨hrest.sessions, hrest.neighbors, hrest.pending⟩
  | recvBurst frames => exact ⟨hrest.sessions, hrest.neighbors, hrest.pending⟩
  | finishBurst accepted => exact ⟨hrest.sessions, hrest.neighbors, hrest.pending⟩

/-- A step at time `t` stamps with `t` only. -/
structure Stamps (t : UInt64) (w w' : Worker) : Prop where
  sessions : w'.sessionStamps ⊆ insert t.toNat w.sessionStamps
  neighbors : w'.neighborStamps ⊆ insert t.toNat w.neighborStamps
  pending : w'.pendingStamps ⊆ insert t.toNat w.pendingStamps

theorem Ages.stamps {w' : Worker} (h : Ages w w') (t : UInt64) : Stamps t w w' :=
  ⟨h.sessions.trans (Set.subset_insert _ _), h.neighbors.trans (Set.subset_insert _ _),
    h.pending.trans (Set.subset_insert _ _)⟩

/-- What enters the queues in a step at time `t` carries this time. -/
theorem pendingStamps_step (h : w.Stamped t) (hinv : w.gw.sessions.Inv) {e : Event} (he : e.At t) :
    (w.step rte e).pendingStamps ⊆ insert t.toNat w.pendingStamps := by
  -- the invariant of the queues, for the relation that a time is an old one or the present
  have hqueues : w.QueuesOk (fun a _ => a.toNat ∈ insert t.toNat w.pendingStamps) t := by
    intro ip q hq
    obtain ⟨hok, -⟩ := h.pending ip q hq
    have hmem : ∀ e ∈ q, e.enqueuedMs.toNat ∈ insert t.toNat w.pendingStamps := by
      intro e he
      refine Set.mem_insert_of_mem _ ⟨ip, e, ?_, rfl⟩
      simp only [queue, listAt, hq]
      exact he
    refine ⟨{ hok with ordered := ?_ }, hmem⟩
    exact List.Pairwise.imp_of_mem (fun ha _ _ => hmem _ ha) hok.ordered
  rintro n ⟨ip, e', he', rfl⟩
  have hnext : (w.step rte e).QueuesOk (fun a _ => a.toNat ∈ insert t.toNat w.pendingStamps) t :=
    hqueues.step (Set.mem_insert _ _) hinv he
  exact (hnext.queue ip).2 e' he'

theorem sessionStamps_of_advances {w' : Worker}
    (h : w.gw.sessions.Advances t w'.gw.sessions) :
    w'.sessionStamps ⊆ insert t.toNat w.sessionStamps := by
  rintro n ⟨p, s', hs', rfl⟩
  rcases h.active p s' hs' with hnow | hold
  · exact Or.inl (congrArg UInt64.toNat hnow)
  · exact Or.inr ⟨p, s', hold, rfl⟩

theorem neighborStamps_handleRx (w : Worker) (m : Mbuf) (t : UInt64)
    (buf : Option Frame) (cap : Nat) :
    (w.handleRx rte m t buf cap).neighborStamps ⊆ insert t.toNat w.neighborStamps := by
  rintro n ⟨ip, e, he, hdyn, rfl⟩
  rw [(handleRx_core rte w m t buf cap).neighbors] at he
  refine VioletGW.handle_neighbors_invariant (P := fun N => ∀ ip e,
    N.entries.lookup ip = some e → e.isStatic = false →
      e.lastSeenMs.toNat ∈ insert t.toNat w.neighborStamps) ?_ rte ?_ m.frame ip e he hdyn
  · intro N ip' mac hN ip e he hdyn
    rw [NeighborTable.entries_learn] at he
    split_ifs at he
    · obtain rfl := Option.some.inj he
      exact Or.inl rfl
    · exact hN ip e he hdyn
  · intro ip e he hdyn
    exact Or.inr ⟨ip, e, he, hdyn, rfl⟩

theorem Stamps.step (h : w.Stamped t) (hinv : w.gw.sessions.Inv) {e : Event} (he : e.At t) :
    Stamps t w (w.step rte e) := by
  have hquiet : e.Quiet → Stamps t w (w.step rte e) := fun hq => (Ages.of_quiet rte hinv hq).stamps t
  cases e with
  | handleNext now buf =>
      have hpending := pendingStamps_step rte h hinv he
      obtain rfl : now = t := he
      cases hrx : w.rx with
      | nil =>
          simp only [Worker.step, hrx]
          exact (Ages.refl w).stamps now
      | cons m rest =>
          simp only [Worker.step, hrx] at hpending ⊢
          refine ⟨?_, ?_, hpending⟩
          · refine sessionStamps_of_advances ?_
            rw [(handleRx_core rte { w with rx := rest } m now buf Config.ioRxBurst).sessions]
            exact (w.gw.handle_cases rte hinv now m.frame).advances hinv
          · exact neighborStamps_handleRx rte { w with rx := rest } m now buf Config.ioRxBurst
  | _ => exact hquiet trivial

/-! ## Sweeps -/

/-- Nothing in the tables was overdue after the last sweeps, at `tExpire` and `tArp`. -/
structure Fresh (cfg : ServiceConfig) (tExpire tArp : UInt64) (w : Worker) : Prop where
  tables : w.Tables cfg
  sessions : Swept cfg.sessionIdleTimeoutMs.toNat tExpire.toNat w.sessionStamps
  neighbors : Swept cfg.arpEntryTimeoutMs.toNat tArp.toNat w.neighborStamps
  pending : Swept Config.arpPendingTimeoutMs.toNat tArp.toNat w.pendingStamps

variable {tExpire tArp : UInt64}

/-- A step after the last sweeps. -/
theorem Fresh.step (h : w.Fresh cfg tExpire tArp) (hw : w.Stamped t) (hinv : w.gw.sessions.Inv)
    (hexpire : tExpire ≤ t) (harp : tArp ≤ t) {e : Event} (he : e.At t) :
    (w.step rte e).Fresh cfg tExpire tArp := by
  have hstamps := Stamps.step rte hw hinv he
  have hexpire := UInt64.le_iff_toNat_le.mp hexpire
  have harp := UInt64.le_iff_toNat_le.mp harp
  exact ⟨h.tables.step rte hinv e, h.sessions.stamp hexpire hstamps.sessions,
    h.neighbors.stamp harp hstamps.neighbors, h.pending.stamp harp hstamps.pending⟩

/-- What a sweep of the sessions leaves. -/
theorem Fresh.expireSessions (h : w.Fresh cfg tExpire tArp) (hw : w.Stamped t)
    (hinv : w.gw.sessions.Inv) : (w.step rte (.expireSessions t)).Fresh cfg t tArp := by
  refine ⟨h.tables.step rte hinv _, swept_of_young ?_, h.neighbors, h.pending⟩
  rintro n ⟨p, s, hs, rfl⟩
  obtain ⟨hs, hidle⟩ := SessionTable.isIdle_of_expire_heap hinv.coherent hs
  rw [SessionTable.isIdle, hs, decide_eq_false_iff_not, timeout_iff (hw.sessions p s hs),
    h.tables.idleTimeoutMs] at hidle
  omega

/-- What a sweep of the neighbors and the queues leaves. -/
theorem Fresh.expireArp (h : w.Fresh cfg tExpire tArp) (hw : w.Stamped t)
    (hinv : w.gw.sessions.Inv) :
    (run (Worker.step rte) w [.expireNeighbors t, .expirePending t]).Fresh cfg tExpire t := by
  have htables := (h.tables.step rte hinv (.expireNeighbors t)).step rte hinv (.expirePending t)
  refine ⟨htables, h.sessions, swept_of_young ?_, swept_of_young ?_⟩
  · rintro n ⟨ip, e, he, hdyn, rfl⟩
    have hkept : (w.gw.neighbors.expire t).entries.lookup ip = some e := he
    rw [NeighborTable.entries_expire, Option.bind_eq_some_iff] at hkept
    obtain ⟨e₀, he₀, hkeep⟩ := hkept
    rw [NeighborTable.expireEntry_eq_some fun _ => hw.neighbors ip e₀ he₀] at hkeep
    obtain ⟨rfl, hstatic | hyoung⟩ := hkeep
    · rw [hdyn] at hstatic
      cases hstatic
    · rw [h.tables.neighbors.entryTimeoutMs] at hyoung
      omega
  · rintro n ⟨ip, e, he, rfl⟩
    have hkept : e ∈ (w.expirePending t).queue ip := he
    rw [expirePending_queue, List.mem_filter] at hkept
    have hyoung : timedOut t e = false := by simpa using hkept.2
    rw [timedOut, decide_eq_false_iff_not, timeout_iff ((hw.pending.queue ip).2 e hkept.1)] at hyoung
    omega

/-- The worker at time `t`, with what is known of its tables. -/
structure Tidy (cfg : ServiceConfig) (t tExpire tArp : UInt64) (w : Worker) : Prop where
  inv : w.Inv cfg
  stamped : w.Stamped t
  fresh : w.Fresh cfg tExpire tArp
  expire_le : tExpire ≤ t
  arp_le : tArp ≤ t

theorem Tidy.run (h : w.Tidy cfg t tExpire tArp) {es : List Event} (hes : ∀ e ∈ es, e.At t) :
    (Support.run (Worker.step rte) w es).Tidy cfg t tExpire tArp :=
  run_invariant_of_mem
    (fun w e he hw => ⟨step_inv rte w e hw.inv, hw.stamped.step hw.inv.sessions (hes e he),
      hw.fresh.step rte hw.stamped hw.inv.sessions hw.expire_le hw.arp_le (hes e he), hw.expire_le,
      hw.arp_le⟩) h

/-- The first timer of the loop, whether it fires or not. -/
theorem Tidy.expireSessions (h : w.Tidy cfg t tExpire tArp) (due : Prop) [Decidable due] :
    (Support.run (Worker.step rte) w (if due then [.expireSessions t] else [])).Tidy cfg t
      (if due then t else tExpire) tArp := by
  split_ifs
  · have hat : ∀ e ∈ [Event.expireSessions t], e.At t := by simp [Event.At]
    have hrun := h.run rte hat
    exact { hrun with
      fresh := h.fresh.expireSessions rte h.stamped h.inv.sessions
      expire_le := UInt64.le_refl t }
  · exact h

/-- The second timer. -/
theorem Tidy.expireArp (h : w.Tidy cfg t tExpire tArp) (due : Prop) [Decidable due] :
    (Support.run (Worker.step rte) w
      (if due then [.expireNeighbors t, .expirePending t] else [])).Tidy cfg t
      tExpire (if due then t else tArp) := by
  split_ifs
  · have hat : ∀ e ∈ [Event.expireNeighbors t, .expirePending t], e.At t := by simp [Event.At]
    have hrun := h.run rte hat
    exact { hrun with
      fresh := h.fresh.expireArp rte h.stamped h.inv.sessions
      arp_le := UInt64.le_refl t }
  · exact h

theorem start_fresh (cfg : ServiceConfig) (shm : Option CpUpdate) (nicMac : Option EtherAddr)
    (tExpire tArp : UInt64) : (start cfg shm nicMac).Fresh cfg tExpire tArp where
  tables := start_tables cfg shm nicMac
  sessions := by
    rintro n ⟨p, s, hs, rfl⟩
    cases nicMac <;> cases hs
  neighbors := by
    rintro n ⟨ip, e, he, hdyn, rfl⟩
    rw [start] at he
    dsimp only at he
    rw [VioletGW.init_neighbors, NeighborTable.entries_seed] at he
    split_ifs at he
    -- the seeded entry is static
    · obtain rfl := Option.some.inj he
      cases hdyn
    · cases he
  pending := by
    rintro n ⟨ip, e, he, rfl⟩
    cases nicMac <;> cases he

end Worker

/-! ## The loop -/

namespace LoopState

variable (rte : Rte) {cfg : ServiceConfig} {s : LoopState}

/-- Nothing was overdue after the last sweeps of the loop. -/
def Fresh (cfg : ServiceConfig) (s : LoopState) : Prop :=
  s.worker.Fresh cfg s.lastExpireMs s.lastArpExpireMs

/-- The present is less than an interval after the last sweeps. -/
structure Timely (t : UInt64) (s : LoopState) : Prop where
  expire : t.toNat < s.lastExpireMs.toNat + Config.sessionExpireIntervalMs.toNat
  arpExpire : t.toNat < s.lastArpExpireMs.toNat + Config.arpExpireIntervalMs.toNat

theorem iterate_lastExpireMs (s : LoopState) (inp : LoopInput) :
    (s.iterate rte inp).lastExpireMs =
      if inp.nowMs - s.lastExpireMs ≥ Config.sessionExpireIntervalMs then inp.nowMs
      else s.lastExpireMs := by
  rw [iterate, housekeeping]
  dsimp only
  split_ifs <;> rfl

theorem iterate_lastArpExpireMs (s : LoopState) (inp : LoopInput) :
    (s.iterate rte inp).lastArpExpireMs =
      if inp.nowMs - s.lastArpExpireMs ≥ Config.arpExpireIntervalMs then inp.nowMs
      else s.lastArpExpireMs := by
  rw [iterate, housekeeping]
  dsimp only
  split_ifs <;> rfl

/-- A timer that fires when its interval has passed is behind by less than the interval. -/
theorem timer_behind {now last interval : UInt64} (hle : last ≤ now) (hpos : 0 < interval.toNat) :
    now.toNat < (if now - last ≥ interval then now else last).toNat + interval.toNat := by
  split_ifs with hdue
  · omega
  · rw [timeout_iff hle] at hdue
    omega

theorem Stamped.timely {inp : LoopInput} (h : s.Stamped cfg inp.nowMs) :
    (s.iterate rte inp).Timely inp.nowMs := by
  constructor
  · rw [iterate_lastExpireMs rte]
    exact timer_behind h.lastExpireMs (by decide)
  · rw [iterate_lastArpExpireMs rte]
    exact timer_behind h.lastArpExpireMs (by decide)

/-- An iteration sweeps, or its steps come after the last sweeps. -/
theorem Fresh.iterate {inp : LoopInput} (h : s.Fresh cfg) (hs : s.Stamped cfg inp.nowMs) :
    (s.iterate rte inp).Fresh cfg := by
  have hat : ∀ e ∈ (if inp.nowMs - s.lastCpPollMs ≥ Config.cpPollIntervalMs then
      [Worker.Event.pollControl inp.control] else []) ++ burstEvents inp, e.At inp.nowMs := by
    intro e he
    apply s.events_at inp
    rw [events, housekeepingEvents, List.append_assoc]
    exact List.mem_append_right _ he
  rw [Fresh, iterate_worker, iterate_lastExpireMs, iterate_lastArpExpireMs, events,
    housekeepingEvents, List.append_assoc, List.append_assoc, run_append, run_append]
  have htidy : s.worker.Tidy cfg inp.nowMs s.lastExpireMs s.lastArpExpireMs :=
    ⟨hs.inv, hs.worker, h, hs.lastExpireMs, hs.lastArpExpireMs⟩
  exact (((htidy.expireSessions rte (inp.nowMs - s.lastExpireMs ≥ Config.sessionExpireIntervalMs)).expireArp
    rte (inp.nowMs - s.lastArpExpireMs ≥ Config.arpExpireIntervalMs)).run rte hat).fresh

theorem start_stamped (cfg : ServiceConfig) (shm : Option CpUpdate) (nicMac : Option EtherAddr)
    (t : UInt64) : (start cfg shm nicMac t).Stamped cfg t :=
  ⟨Worker.start_inv cfg shm nicMac, Worker.start_stamped cfg shm nicMac t, UInt64.le_refl _,
    UInt64.le_refl _, UInt64.le_refl _⟩

/-- After a run whose clock does not run backwards, at the time of its last iteration or later. -/
theorem run_fresh (cfg : ServiceConfig) (shm : Option CpUpdate) (nicMac : Option EtherAddr)
    (t₀ : UInt64) (inputs : List LoopInput) (t : UInt64)
    (hclock : (t₀ :: inputs.map LoopInput.nowMs ++ [t]).Pairwise (· ≤ ·)) :
    (run (iterate rte) (start cfg shm nicMac t₀) inputs).Stamped cfg t ∧
      (run (iterate rte) (start cfg shm nicMac t₀) inputs).Fresh cfg := by
  rw [List.pairwise_append, List.pairwise_cons] at hclock
  obtain ⟨⟨hstart, hinputs⟩, -, hlast⟩ := hclock
  have hend : ∀ t' ∈ t₀ :: inputs.map LoopInput.nowMs, t' ≤ t := fun t' ht' =>
    hlast t' ht' t (List.mem_singleton_self t)
  refine run_clocked LoopInput.nowMs (t := t₀)
    (P := fun (t : UInt64) (s : LoopState) => s.Stamped cfg t ∧ s.Fresh cfg)
    (fun hle h => ⟨h.1.mono hle, h.2⟩) (fun s inp h => ⟨h.1.iterate rte inp, h.2.iterate rte h.1⟩)
    ?_ hinputs ?_ ?_ ?_
  · exact ⟨start_stamped cfg shm nicMac t₀, Worker.start_fresh cfg shm nicMac _ _⟩
  · exact fun inp hinp => hstart _ (List.mem_map_of_mem hinp)
  · exact fun inp hinp => hend _ (List.mem_cons_of_mem _ (List.mem_map_of_mem hinp))
  · exact hend _ List.mem_cons_self

/-- If the clock does not run backwards, then at the end of every iteration no session has been idle
for the timeout and one second, no learned neighbor was seen longer ago than its timeout and one
minute, and no packet has waited longer than its timeout and one minute. -/
theorem ages_bounded (cfg : ServiceConfig) (shm : Option CpUpdate) (nicMac : Option EtherAddr)
    (t₀ : UInt64) (inputs : List LoopInput) (inp : LoopInput)
    (hclock : (t₀ :: inputs.map LoopInput.nowMs ++ [inp.nowMs]).Pairwise (· ≤ ·)) {s : LoopState}
    (hs : run (iterate rte) (start cfg shm nicMac t₀) (inputs ++ [inp]) = s) :
    (∀ ps ∈ s.worker.gw.sessions.live, inp.nowMs.toNat < ps.2.lastActiveMs.toNat +
      cfg.sessionIdleTimeoutMs.toNat + Config.sessionExpireIntervalMs.toNat) ∧
    (∀ ip e, s.worker.gw.neighbors.entries.lookup ip = some e → e.isStatic = false →
      inp.nowMs.toNat < e.lastSeenMs.toNat + cfg.arpEntryTimeoutMs.toNat +
        Config.arpExpireIntervalMs.toNat) ∧
    ∀ ip, ∀ e ∈ s.worker.queue ip, inp.nowMs.toNat < e.enqueuedMs.toNat +
      Config.arpPendingTimeoutMs.toNat + Config.arpExpireIntervalMs.toNat := by
  obtain ⟨hstamped, hfresh⟩ := run_fresh rte cfg shm nicMac t₀ inputs inp.nowMs hclock
  rw [run_concat] at hs
  have hnext := hfresh.iterate rte hstamped
  have hsessions := (hstamped.iterate rte).inv.sessions
  have htimely := hstamped.timely rte
  rw [hs] at hnext hsessions htimely
  refine ⟨?_, ?_, ?_⟩
  · rintro ⟨p, x⟩ hlive
    have hx := (SessionTable.mem_live hsessions.coherent p x).mp hlive
    exact hnext.sessions.age htimely.expire ⟨p, x, hx, rfl⟩
  · intro ip e he hdyn
    exact hnext.neighbors.age htimely.arpExpire ⟨ip, e, he, hdyn, rfl⟩
  · intro ip e he
    exact hnext.pending.age htimely.arpExpire ⟨ip, e, he, rfl⟩

/-- An iteration at `now` that receives nothing. -/
def quietInput (now : UInt64) : LoopInput where
  nowMs := now
  control := none
  rx := []
  rx_le := Nat.zero_le _
  accepted := []

/-- A session of the time `1000` that has just escaped one sweep is still there half a second later,
although it has been idle for more than a minute by then. -/
theorem ages_bounded_lab :
    ∃ ps ∈ (run (iterate Rte.dpdk) (start .lab none none 0)
        ([labWaitInput, quietInput 60999] ++ [quietInput 61500])).worker.gw.sessions.live,
      ps.2.lastActiveMs.toNat + 60000 ≤ 61500 ∧ 61500 < ps.2.lastActiveMs.toNat + 61000 := by
  have hlive : ((run (iterate Rte.dpdk) (start .lab none none 0) ([labWaitInput, quietInput 60999] ++
      [quietInput 61500])).worker.gw.sessions.live.map fun ps => ps.2.lastActiveMs) = [1000] := by
    decide +kernel
  obtain ⟨ps, hps, htime⟩ : ∃ ps ∈ (run (iterate Rte.dpdk) (start .lab none none 0)
      ([labWaitInput, quietInput 60999] ++ [quietInput 61500])).worker.gw.sessions.live,
      ps.2.lastActiveMs = 1000 := List.mem_map.mp (hlive ▸ List.mem_singleton_self _)
  refine ⟨ps, hps, ?_, ?_⟩
  · rw [htime]
    decide
  · exact (ages_bounded Rte.dpdk .lab none none 0 [labWaitInput, quietInput 60999] (quietInput 61500)
      (by decide) rfl).1 ps hps

/-! ## Quiet periods -/

/-- An iteration that receives nothing ages the tables. -/
theorem iterate_ages (hinv : s.worker.Inv cfg) {inp : LoopInput} (hquiet : inp.rx = []) :
    s.worker.Ages (s.iterate rte inp).worker := by
  have hevents : ∀ e ∈ s.events inp, e.Quiet := by
    intro e he
    rw [events, housekeepingEvents, burstEvents, if_pos hquiet, List.append_nil] at he
    simp only [List.mem_append, List.mem_ite_nil_right, List.mem_cons, List.not_mem_nil,
      or_false] at he
    rcases he with (⟨-, rfl⟩ | ⟨-, rfl | rfl⟩) | ⟨-, rfl⟩ <;> trivial
  rw [iterate_worker]
  exact (run_invariant_of_mem (P := fun w : Worker => w.Inv cfg ∧ s.worker.Ages w)
    (fun w e he hw => ⟨Worker.step_inv rte w e hw.1,
      hw.2.trans (.of_quiet rte hw.1.sessions (hevents e he))⟩) ⟨hinv, .refl _⟩).2

theorem run_ages {quiet : List LoopInput} (hquiet : ∀ inp ∈ quiet, inp.rx = [])
    (hinv : s.worker.Inv cfg) : s.worker.Ages (run (iterate rte) s quiet).worker :=
  (run_invariant_of_mem (P := fun s' : LoopState => s'.worker.Inv cfg ∧ s.worker.Ages s'.worker)
    (fun s' inp hinp h => ⟨iterate_inv rte s' inp h.1,
      h.2.trans (iterate_ages rte h.1 (hquiet inp hinp))⟩) ⟨hinv, .refl _⟩).2

/-- A table without sessions gives a port to as many new flows as there are ports. -/
theorem createMany_of_drained {w : Worker} (htables : w.Tables cfg) (hinv : w.gw.sessions.Inv)
    (hempty : w.gw.sessions.sessions = []) {keys : List FlowKey} (hkeys : keys.Nodup)
    (hlen : keys.length ≤ 50000) (ip : UInt32) (port : UInt16) (now : UInt64) :
    (SessionTable.createMany ip port now keys w.gw.sessions).isSome = true := by
  have hmiss : ∀ k ∈ keys, w.gw.sessions.lookupForward k = none := by
    intro k _
    rw [Option.eq_none_iff_forall_ne_some]
    intro p hp
    obtain ⟨x, hx, -⟩ := (hinv.forward_iff k p).mp hp
    have hmem := (hinv.coherent.live_iff p).mpr ⟨x, hx⟩
    rw [hempty] at hmem
    exact List.not_mem_nil hmem
  have hnew : SessionTable.Inv (.new cfg.gatewayIp cfg.sessionIdleTimeoutMs) :=
    SessionTable.new_inv _ _ _ _ (by decide)
  have hcap : w.gw.sessions.pool.capacity = SessionTable.snatRangeSize 10000 60000 :=
    SessionTable.capacity_of_sameRange (SessionTable.sameRange_of_reaches hnew htables.sessions)
  rw [SessionTable.createMany_isSome_iff ip port now keys hinv hkeys hmiss, hempty, hcap,
    List.length_nil, Nat.zero_add]
  exact hlen

/-- A gateway that receives nothing gives everything back, whatever happened before: one interval after
the timeouts there is no session, and each of as many new flows as there are ports gets one; only the
seeded neighbor resolves; and no packet waits. -/
theorem quiet_drains (cfg : ServiceConfig) (shm : Option CpUpdate) (nicMac : Option EtherAddr)
    (t₀ tQuiet : UInt64) (busy quiet : List LoopInput) (inp : LoopInput)
    (hquiet : ∀ i ∈ quiet ++ [inp], i.rx = [])
    (hclock : (t₀ :: busy.map LoopInput.nowMs ++
      tQuiet :: quiet.map LoopInput.nowMs ++ [inp.nowMs]).Pairwise (· ≤ ·)) {w : Worker}
    (hw : (run (iterate rte) (start cfg shm nicMac t₀) (busy ++ quiet ++ [inp])).worker = w) :
    (tQuiet.toNat + cfg.sessionIdleTimeoutMs.toNat + Config.sessionExpireIntervalMs.toNat ≤
        inp.nowMs.toNat →
      w.gw.sessions.sessions = [] ∧ ∀ keys : List FlowKey, keys.Nodup → keys.length ≤ 50000 →
        ∀ ip port now, (SessionTable.createMany ip port now keys w.gw.sessions).isSome = true) ∧
    (tQuiet.toNat + cfg.arpEntryTimeoutMs.toNat + Config.arpExpireIntervalMs.toNat ≤
        inp.nowMs.toNat →
      ∀ ip mac, w.gw.neighbors.lookup ip = some mac → ip = cfg.upstream0.ip) ∧
    (tQuiet.toNat + Config.arpPendingTimeoutMs.toNat + Config.arpExpireIntervalMs.toNat ≤
        inp.nowMs.toNat →
      ∀ ip, w.queue ip = []) := by
  -- nothing is stamped after the beginning of the quiet period
  have hbusy := (run_fresh rte cfg shm nicMac t₀ busy tQuiet (hclock.sublist (by simp))).1
  have hages := run_ages rte hquiet hbusy.inv
  rw [← run_append, ← List.append_assoc, hw] at hages
  -- and the sweeps are up to date
  obtain ⟨hstamped, hfresh⟩ := run_fresh rte cfg shm nicMac t₀ (busy ++ quiet) inp.nowMs
    (hclock.sublist (by simp))
  have hnext := hfresh.iterate rte hstamped
  have hinv := (hstamped.iterate rte).inv
  have htimely := hstamped.timely rte
  rw [run_concat] at hw
  rw [Fresh, hw] at hnext
  rw [hw] at hinv
  refine ⟨fun hlong => ?_, fun hlong ip mac hmac => ?_, fun hlong ip => ?_⟩
  · have hempty : w.gw.sessions.sessions = [] := by
      rw [List.eq_nil_iff_forall_not_mem]
      intro p hp
      obtain ⟨x, hx⟩ := (hinv.sessions.coherent.live_iff p).mp hp
      have hnone := hnext.sessions.eq_empty htimely.expire
        (fun n hn => hbusy.worker.sessionStamps_le n (hages.sessions hn)) hlong
      exact Set.eq_empty_iff_forall_notMem.mp hnone _ ⟨p, x, hx, rfl⟩
    exact ⟨hempty, fun keys hkeys hlen ip port now =>
      createMany_of_drained hnext.tables hinv.sessions hempty hkeys hlen ip port now⟩
  · rw [NeighborTable.lookup, Option.map_eq_some_iff] at hmac
    obtain ⟨e, he, -⟩ := hmac
    cases hstatic : e.isStatic with
    | true => exact hnext.tables.neighbors.static ip e he hstatic
    | false =>
        have hnone := hnext.neighbors.eq_empty htimely.arpExpire
          (fun n hn => hbusy.worker.neighborStamps_le n (hages.neighbors hn)) hlong
        exact absurd ⟨ip, e, he, hstatic, rfl⟩ (Set.eq_empty_iff_forall_notMem.mp hnone _)
  · rw [List.eq_nil_iff_forall_not_mem]
    intro e he
    have hnone := hnext.pending.eq_empty htimely.arpExpire
      (fun n hn => hbusy.worker.pendingStamps_le n (hages.pending hn)) hlong
    exact Set.eq_empty_iff_forall_notMem.mp hnone _ ⟨ip, e, he, rfl⟩

/-- Two frames wait for an upstream that never answers; the session and both packets are gone in
the end. -/
theorem quiet_drains_lab :
    (run (iterate Rte.dpdk) (start .lab none none 0)
        [labWaitInput]).worker.gw.sessions.sessions ≠ [] ∧
      (run (iterate Rte.dpdk) (start .lab none none 0)
        ([labWaitInput] ++ [] ++ [quietInput 66000])).worker.gw.sessions.sessions = [] ∧
      (run (iterate Rte.dpdk) (start .lab none none 0)
        ([labWaitInput] ++ [] ++ [quietInput 66000])).worker.queue
          (Config.ipv4From ![10, 0, 0, 2]) = [] := by
  obtain ⟨hsessions, -, hpending⟩ := quiet_drains Rte.dpdk .lab none none 0 1000 [labWaitInput] []
    (quietInput 66000) (by simp [quietInput]) (by decide) rfl
  exact ⟨by decide +kernel, (hsessions (by decide)).1, hpending (by decide) _⟩

end LoopState

end VioletGateway
