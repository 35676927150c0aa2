import VioletGateway.Gateway.TxDemand

/-!
# When a burst stays inside the transmit array

While there is room, the fill count of `tx` is the demand of the frames handled so far, and what is in
the queues can be told from the counts (`Tracked`). A frame is followed in two halves: the flush for
the address that it announces (`Tracked.flush`), then the frame itself (`Flushed.dispose`). From the
time on when the array is full, the demand exceeds it with every further frame that is transmitted at
once. Hence all writes are in bounds exactly if the demand up to each such frame is at most 32
(`writesInBounds_iff`).
-/

set_option autoImplicit false

namespace VioletGateway

open Support

/-! ## What the methods do to the counts -/

namespace Worker

variable (rte : Rte) {w : Worker} {ip : UInt32} {mac : EtherAddr} (now : UInt64) (cap : Nat)

/-- The flush of the loop is a flush of the address announced. -/
theorem afterFlush_eq (hinv : w.gw.sessions.Inv) (m : Mbuf) :
    w.afterFlush rte m now cap =
      ({ w with gw := ((w.gw.handle rte now).run m.frame).val.2 } : Worker).flushPending rte
        (w.gw.announced rte now m.frame) now cap := by
  have hpending := (w.gw.handle_cases rte hinv now m.frame).arpPending
  have hflush : ∀ (u : Worker) (o : HandleOutcome),
      u.flushLearned rte o now cap = u.flushPending rte o.learnedIp now cap := by
    intro u o
    rw [flushLearned, flushPending]
    by_cases hip : o.learnedIp = 0
    · rw [if_neg (not_not.mpr hip), if_pos hip]
    · rw [if_pos hip]
  rw [afterFlush, hflush]
  rcases VioletGW.learnedIp_cases rte hinv now m.frame with hsame | ⟨hzero, hnone⟩
  · rw [hsame]
  · -- nothing waits for the address announced, so its flush does nothing either
    have hqueue : ({ w with gw := ((w.gw.handle rte now).run m.frame).val.2 } : Worker).queue
        (w.gw.announced rte now m.frame) = [] := by
      rw [queue, listAt, hpending, hnone]
      rfl
    rw [hzero, flushPending, if_pos rfl, flushPending, if_pos hqueue, ite_self]

theorem flushPending_queue_of_ne {ip' : UInt32} (h : ip' ≠ ip) :
    (w.flushPending rte ip now cap).queue ip' = w.queue ip' :=
  congrArg (Option.getD · []) (w.flushPending_lookup_ne rte h now cap)

/-- A flush of a resolved address: the packets in time are sent as far as there is room, and the queue
is empty if there is room for all. -/
theorem flushPending_counts (hqueue : ∀ e ∈ w.queue ip, e.m.frame.Accepts) (hip : ip ≠ 0)
    (hmac : w.gw.neighbors.lookup ip = some mac) :
    (w.flushPending rte ip now cap).tx.n =
        w.tx.n + min (cap - w.tx.n) (inTime now (w.queue ip)).length ∧
      ((inTime now (w.queue ip)).length ≤ cap - w.tx.n →
        (w.flushPending rte ip now cap).queue ip = []) := by
  obtain ⟨htx, -⟩ := flushPending_resolved rte hqueue hip now cap hmac
  constructor
  · rw [OutArray.n, htx]
    simp [OutArray.n]
  · intro hroom
    obtain ⟨hrest, -, -⟩ := foldl_flushEntry_resolved rte now cap (w.queue ip) hqueue w [] hmac
    rw [List.drop_eq_nil_of_le (by simpa using hroom), List.append_nil] at hrest
    rw [flushPending, if_neg hip]
    split_ifs with hnil
    · exact hnil
    · exact (storeRemaining_queue ip ip _).trans ((if_pos rfl).trans hrest)

/-- A flush of an address that is not resolved only frees what is overdue. -/
theorem flushPending_counts_unresolved (hqueue : ∀ e ∈ w.queue ip, e.m.frame.Accepts) (hip : ip ≠ 0)
    (hnone : w.gw.neighbors.lookup ip = none) :
    (w.flushPending rte ip now cap).tx = w.tx ∧
      (w.flushPending rte ip now cap).queue ip = inTime now (w.queue ip) := by
  obtain ⟨hrest, htx, -⟩ := foldl_flushEntry_unresolved rte now cap (w.queue ip) hqueue w [] hnone
  rw [List.nil_append] at hrest
  rw [flushPending, if_neg hip]
  by_cases hnil : w.queue ip = []
  · rw [if_pos hnil, hnil]
    exact ⟨rfl, rfl⟩
  · rw [if_neg hnil]
    refine ⟨(storeRemaining_tx ip _).trans htx, ?_⟩
    exact (storeRemaining_queue ip ip _).trans ((if_pos rfl).trans hrest)

end Worker

/-! ## Tracking a burst -/

namespace Worker

/-- The burst was received in the state `w`, the frames `vs` of it are handled, and everything they
asked for has found room: the counts say what is in the array and in the queues of `v`. -/
structure Tracked (w : Worker) (now : UInt64) (vs : List Verdict) (v : Worker) : Prop where
  n_eq : v.tx.n = w.demand now vs
  n_le : v.tx.n ≤ Config.ioRxBurst
  probes : ∀ ip, v.probedRecently ip now = true ↔
    w.probedRecently ip now = true ∨ ip ∈ w.probed now vs
  empty : ∀ ip ∈ Verdict.released vs, v.queue ip = []
  live : ∀ ip, ip ≠ 0 → ip ∉ Verdict.released vs →
    (inTime now (v.queue ip)).length = w.backlog now ip vs
  stored : ∀ ip, ip ≠ 0 → ip ∉ Verdict.released vs →
    (v.queue ip).length = w.backlog now ip vs + w.stale now ip vs

/-- The same between the flush for one more frame and what becomes of the frame itself. -/
structure Flushed (w : Worker) (now : UInt64) (vs : List Verdict) (x : Verdict) (v : Worker) :
    Prop where
  n_eq : v.tx.n = w.demand now vs +
    if x.resolved ∧ x.announced ∉ Verdict.released vs then w.backlog now x.announced vs else 0
  n_le : v.tx.n ≤ Config.ioRxBurst
  probes : ∀ ip, v.probedRecently ip now = true ↔
    w.probedRecently ip now = true ∨ ip ∈ w.probed now vs
  empty : ∀ ip ∈ Verdict.released (vs ++ [x]), v.queue ip = []
  live : ∀ ip, ip ≠ 0 → ip ∉ Verdict.released (vs ++ [x]) →
    (inTime now (v.queue ip)).length = w.backlog now ip vs
  stored : ∀ ip, ip ≠ 0 → ip ∉ Verdict.released (vs ++ [x]) →
    (v.queue ip).length = w.backlog now ip vs + if x.announced = ip then 0 else w.stale now ip vs

variable {rte : Rte} {w v : Worker} {now : UInt64} {vs : List Verdict} {x : Verdict}
  {cfg : ServiceConfig}

theorem Tracked.received (hsound : w.Sound cfg) (hn : w.tx.n = 0) : Tracked w now [] w where
  n_eq := by simp [hn, demand, probed, Verdict.released]
  n_le := by simp [hn]
  probes := by simp [probed]
  empty := by simp [Verdict.released]
  live := by
    intro ip _ _
    have hlen := hsound.queue_length_le ip
    have hlive := inTime_length_le now (w.queue ip)
    simp [backlog, Verdict.heldBefore, Verdict.heldAfter, Verdict.held]
    omega
  stored := by
    intro ip _ _
    have hlen := hsound.queue_length_le ip
    have hlive := inTime_length_le now (w.queue ip)
    simp [backlog, stale, Verdict.heldBefore, Verdict.heldAfter, Verdict.held, Verdict.announces]
    omega

/-- What is to be known of a flush that finds room for everything. -/
theorem Tracked.flushed (h : Tracked w now vs v) {u : Worker}
    (hprobes : u.gw.arpProbeLastMs = v.gw.arpProbeLastMs)
    (hn : u.tx.n = w.demand now vs +
      if x.resolved ∧ x.announced ∉ Verdict.released vs then w.backlog now x.announced vs else 0)
    (hle : u.tx.n ≤ Config.ioRxBurst) (hne : ∀ ip, ip ≠ x.announced → u.queue ip = v.queue ip)
    (hself : (x.resolved = true ∧ u.queue x.announced = []) ∨
      (x.resolved = false ∧ x.announced = 0 ∧ u.queue x.announced = v.queue x.announced) ∨
      (x.resolved = false ∧ x.announced ∉ Verdict.released vs ∧
        u.queue x.announced = inTime now (v.queue x.announced))) :
    Flushed w now vs x u where
  n_eq := hn
  n_le := hle
  probes := by
    intro ip
    rw [probedRecently_congr (congrArg (AList.lookup ip) hprobes), h.probes]
  empty := by
    intro ip hip
    rw [Verdict.released_concat] at hip
    by_cases hb : ip = x.announced
    · subst hb
      rcases hself with ⟨-, hnil⟩ | ⟨hres, -, hsame⟩ | ⟨hres, hnot, -⟩
      · exact hnil
      · rw [hsame]
        exact h.empty _ (by simpa [hres] using hip)
      · exact absurd (by simpa [hres] using hip) hnot
    · rw [hne ip hb]
      refine h.empty ip ?_
      split_ifs at hip
      · exact Finset.mem_of_mem_insert_of_ne hip hb
      · exact hip
  live := by
    intro ip hip hnot
    rw [Verdict.released_concat] at hnot
    by_cases hb : ip = x.announced
    · subst hb
      rcases hself with ⟨hres, -⟩ | ⟨-, hzero, -⟩ | ⟨hres, hnot, hkeep⟩
      · exact absurd (by simp [hres]) hnot
      · exact absurd hzero hip
      · rw [hkeep, inTime, inTime, List.filter_filter]
        simp only [Bool.and_self]
        exact h.live _ hip hnot
    · rw [hne ip hb]
      refine h.live ip hip fun hmem => hnot ?_
      split_ifs
      · exact Finset.mem_insert_of_mem hmem
      · exact hmem
  stored := by
    intro ip hip hnot
    rw [Verdict.released_concat] at hnot
    by_cases hb : ip = x.announced
    · subst hb
      rcases hself with ⟨hres, -⟩ | ⟨-, hzero, -⟩ | ⟨hres, hnot, hkeep⟩
      · exact absurd (by simp [hres]) hnot
      · exact absurd hzero hip
      · rw [hkeep, if_pos rfl, Nat.add_zero]
        exact h.live _ hip hnot
    · rw [hne ip hb, if_neg (Ne.symm hb)]
      refine h.stored ip hip fun hmem => hnot ?_
      split_ifs
      · exact Finset.mem_insert_of_mem hmem
      · exact hmem

/-- The flush for one more frame: there is room for what it releases, or the array is full. -/
theorem Tracked.flush (h : Tracked w now vs v) (hsound : v.Sound cfg)
    (hres : ∀ ip ∈ Verdict.released vs, v.gw.Resolves ip) (m : Mbuf) (buf : Option Frame)
    (hx : x = v.gw.verdict rte now m.frame buf) :
    Flushed w now vs x (v.afterFlush rte m now Config.ioRxBurst) ∨
      (Config.ioRxBurst ≤ (v.afterFlush rte m now Config.ioRxBurst).tx.n ∧
        Config.ioRxBurst ≤ w.demand now vs +
          if x.resolved ∧ x.announced ∉ Verdict.released vs then w.backlog now x.announced vs
          else 0) := by
  have hinv := hsound.1.sessions
  have hstep := v.gw.handle_cases rte hinv now m.frame
  have hann : v.gw.announced rte now m.frame = x.announced := by rw [hx]; rfl
  have hresolved : x.resolved = (decide (x.announced ≠ 0) &&
      (((v.gw.handle rte now).run m.frame).val.2.neighbors.lookup x.announced).isSome) := by
    rw [hx]
    rfl
  have hprobes : (v.afterFlush rte m now Config.ioRxBurst).gw.arpProbeLastMs =
      v.gw.arpProbeLastMs :=
    (flushLearned_probes _ now Config.ioRxBurst).trans hstep.arpProbeLastMs
  rw [afterFlush_eq rte now Config.ioRxBurst hinv, hann] at hprobes ⊢
  -- handling the frame has touched neither the queues nor the array
  generalize hu : ({ v with gw := ((v.gw.handle rte now).run m.frame).val.2 } : Worker) = u
    at hprobes ⊢
  have hqueue : ∀ ip, u.queue ip = v.queue ip := by
    intro ip
    rw [← hu, queue, listAt, hstep.arpPending]
    rfl
  have htx : u.tx = v.tx := by rw [← hu]
  have haccepts : ∀ e ∈ u.queue x.announced, e.m.frame.Accepts := by
    rw [hqueue]
    exact hsound.accepts _
  have hne : ∀ ip, ip ≠ x.announced →
      (u.flushPending rte x.announced now Config.ioRxBurst).queue ip = v.queue ip :=
    fun ip hip => (flushPending_queue_of_ne rte now _ hip).trans (hqueue ip)
  have hn := h.n_eq
  have hle := h.n_le
  cases hcase : x.resolved with
  | true =>
      rw [hcase, eq_comm, Bool.and_eq_true, decide_eq_true_eq] at hresolved
      obtain ⟨hip, hsome⟩ := hresolved
      obtain ⟨mac, hmac⟩ := Option.isSome_iff_exists.mp hsome
      have hmac' : u.gw.neighbors.lookup x.announced = some mac := by rw [← hu, hmac]
      obtain ⟨hsent, hnil⟩ := flushPending_counts rte now Config.ioRxBurst haccepts hip hmac'
      rw [hqueue, htx] at hsent hnil
      by_cases hmem : x.announced ∈ Verdict.released vs
      · -- its packets were released before
        have hzero : (inTime now (v.queue x.announced)).length = 0 := by
          rw [h.empty _ hmem]
          rfl
        rw [hzero, Nat.min_zero, Nat.add_zero] at hsent
        left
        refine h.flushed hprobes ?_ (hsent.le.trans hle) hne (Or.inl ⟨hcase, hnil ?_⟩)
        · rw [hsent, hn, if_neg fun h => h.2 hmem, Nat.add_zero]
        · rw [hzero]
          exact Nat.zero_le _
      · have hlive := h.live _ hip hmem
        rw [hlive] at hsent hnil
        rw [if_pos ⟨rfl, hmem⟩]
        by_cases hroom : w.backlog now x.announced vs ≤ Config.ioRxBurst - v.tx.n
        · left
          refine h.flushed hprobes ?_ (by omega) hne (Or.inl ⟨hcase, hnil hroom⟩)
          rw [hsent, if_pos ⟨hcase, hmem⟩]
          omega
        · right
          omega
  | false =>
      left
      have hzero : (if false = true ∧ x.announced ∉ Verdict.released vs then
          w.backlog now x.announced vs else 0) = 0 := if_neg fun h => Bool.false_ne_true h.1
      by_cases hip : x.announced = 0
      · have hidle : u.flushPending rte x.announced now Config.ioRxBurst = u := by
          rw [flushPending, if_pos hip]
        rw [hidle] at hne hprobes ⊢
        refine h.flushed hprobes ?_ ?_ hne (Or.inr (Or.inl ⟨hcase, hip, hqueue _⟩))
        · rw [htx, hn, hcase, hzero, Nat.add_zero]
        · rw [htx]
          exact hle
      · have hnone : u.gw.neighbors.lookup x.announced = none := by
          rw [← hu]
          simpa [hcase, hip] using hresolved
        obtain ⟨hsame, hkeep⟩ := flushPending_counts_unresolved rte now Config.ioRxBurst haccepts
          hip hnone
        refine h.flushed hprobes ?_ ?_ hne (Or.inr (Or.inr ⟨hcase, ?_, ?_⟩))
        · rw [hsame, htx, hn, hcase, hzero, Nat.add_zero]
        · rw [hsame, htx]
          exact hle
        · -- a resolved address stays resolved
          intro hmem
          have hstay := VioletGW.handle_resolves rte (hres _ hmem) now m.frame
          rw [VioletGW.Resolves] at hstay
          rw [← hu] at hnone
          rw [hnone] at hstay
          cases hstay
        · rw [hkeep, hqueue]

/-- A packet that has just been queued is in time. -/
theorem inTime_concat_now (q : List ArpPendingEntry) (m : Mbuf) :
    inTime now (q ++ [⟨m, now⟩]) = inTime now q ++ [⟨m, now⟩] := by
  rw [inTime, inTime, List.filter_append]
  simp [timedOut, Config.arpPendingTimeoutMs]

/-- What is to be known of the rest of the turn if it finds room for everything. -/
theorem Flushed.tracked {u u' : Worker} (h : Flushed w now vs x u) (hw : w.Sound cfg)
    (hwait : ∀ ip ∈ Verdict.released (vs ++ [x]), x.waitIp ≠ ip)
    (hn : u'.tx.n = w.demand now (vs ++ [x])) (hle : u'.tx.n ≤ Config.ioRxBurst)
    (hprobes : ∀ ip, u'.probedRecently ip now = true ↔
      w.probedRecently ip now = true ∨ ip ∈ w.probed now (vs ++ [x]))
    (hne : ∀ ip, x.waitIp ≠ ip → u'.queue ip = u.queue ip) (m : Mbuf)
    (hself : x.waitIp ≠ 0 → u'.queue x.waitIp =
      if (u.queue x.waitIp).length ≥ Config.arpPendingMaxPerIp then u.queue x.waitIp
      else u.queue x.waitIp ++ [⟨m, now⟩]) : Tracked w now (vs ++ [x]) u' where
  n_eq := hn
  n_le := hle
  probes := hprobes
  empty := by
    intro ip hip
    rw [hne ip (hwait ip hip)]
    exact h.empty ip hip
  live := by
    intro ip hip hnot
    have hlive := h.live ip hip hnot
    have hstored := h.stored ip hip hnot
    by_cases hx : x.waitIp = ip
    · subst hx
      rw [hself hip, backlog_concat_self w now (hw.queue_length_le _) rfl, ← hstored]
      split_ifs
      · exact hlive
      · rw [inTime_concat_now, List.length_append, List.length_singleton, hlive]
    · rw [hne ip hx, backlog_concat_of_ne w now hx, hlive]
  stored := by
    intro ip hip hnot
    have hstored := h.stored ip hip hnot
    rw [stale_concat w now]
    by_cases hx : x.waitIp = ip
    · subst hx
      rw [hself hip, backlog_concat_self w now (hw.queue_length_le _) rfl, ← hstored]
      generalize (if x.announced = x.waitIp then 0 else w.stale now x.waitIp vs) = overdue at hstored ⊢
      split_ifs
      · exact hstored
      · rw [List.length_append, List.length_singleton, hstored]
        omega
    · rw [hne ip hx, backlog_concat_of_ne w now hx, hstored]

/-- What becomes of the frame itself: there is room for what it asks for, or the array is full. -/
theorem Flushed.dispose {u : Worker} (h : Flushed w now vs x u) (hw : w.Sound cfg)
    (hwait : ∀ ip ∈ Verdict.released (vs ++ [x]), x.waitIp ≠ ip) {o : HandleOutcome}
    {buf : Option Frame} (hanswered : x.answered = decide o.result.IsTx)
    (hwaitIp : x.waitIp = if o.result = .pendingArp then o.arpWaitIp else 0)
    (hprobe : x.probe = decide (x.waitIp ≠ 0 ∧ ¬NoProbeBuf buf)) (m : Mbuf) :
    Tracked w now (vs ++ [x]) (u.dispose o m now buf Config.ioRxBurst) ∨
      (Config.ioRxBurst ≤ (u.dispose o m now buf Config.ioRxBurst).tx.n ∧
        Config.ioRxBurst ≤ w.demand now (vs ++ [x])) := by
  have hdemand := demand_concat w now hwait
  have hn := h.n_eq
  have hle := h.n_le
  by_cases hidle : x.waitIp = 0
  · -- the frame does not wait: nothing happens to the queues and the probes
    have hno : x.probe = false := by
      rw [hprobe, decide_eq_false_iff_not]
      exact fun hc => hc.1 hidle
    have hsame : (u.dispose o m now buf Config.ioRxBurst).gw = u.gw ∧
        (u.dispose o m now buf Config.ioRxBurst).tx.n = u.tx.n + if x.answered then 1 else 0 := by
      rw [hanswered, Worker.dispose]
      rw [hidle] at hwaitIp
      generalize o.result = result at hwaitIp
      cases result with
      | drop => exact ⟨rfl, rfl⟩
      | pendingArp =>
          have hzero : o.arpWaitIp = 0 := (hwaitIp.trans (if_pos rfl)).symm
          have hsame : (u.enqueuePending 0 m now).maybeProbeArp 0 now buf Config.ioRxBurst = u := by
            rw [maybeProbeArp, if_pos rfl, enqueuePending, if_pos rfl]
          rw [hzero]
          dsimp only
          rw [hsame]
          exact ⟨rfl, rfl⟩
      | txForward => exact ⟨rfl, pushTx_n u m⟩
      | txReverse => exact ⟨rfl, pushTx_n u m⟩
      | txArp => exact ⟨rfl, pushTx_n u m⟩
    obtain ⟨hgw, htx⟩ := hsame
    rw [hno] at hdemand
    simp only [Bool.false_and, Bool.false_eq_true, false_and, if_false, Nat.add_zero] at hdemand
    by_cases hroom : (u.dispose o m now buf Config.ioRxBurst).tx.n ≤ Config.ioRxBurst
    · left
      refine h.tracked hw hwait ?_ hroom ?_ ?_ m fun hc => absurd hidle hc
      · omega
      · intro ip
        have hlast := congrArg (fun g : VioletGW => g.arpProbeLastMs.lookup ip) hgw
        rw [probed_concat, hno, probedRecently_congr hlast, h.probes]
        simp
      · intro ip _
        rw [queue, hgw]
        rfl
    · right
      omega
  · -- the frame waits: it is queued if there is room, and a probe is sent if one is due
    have hpend : o.result = .pendingArp := by
      by_contra hno
      exact hidle (hwaitIp.trans (if_neg hno))
    rw [if_pos hpend] at hwaitIp
    have hno : x.answered = false := by
      rw [hanswered, hpend]
      rfl
    have hqueue : ∀ ip, (u.dispose o m now buf Config.ioRxBurst).queue ip =
        (u.enqueuePending o.arpWaitIp m now).queue ip := by
      intro ip
      rw [Worker.dispose, hpend]
      exact congrArg (listAt · ip) (maybeProbeArp_arpPending _ _ _ _ _)
    have hne : ∀ ip, x.waitIp ≠ ip →
        (u.dispose o m now buf Config.ioRxBurst).queue ip = u.queue ip := by
      intro ip hip
      rw [hwaitIp] at hip
      rw [hqueue]
      exact congrArg (Option.getD · []) (u.enqueuePending_lookup_ne (Ne.symm hip) m now)
    have hself : (u.dispose o m now buf Config.ioRxBurst).queue x.waitIp =
        if (u.queue x.waitIp).length ≥ Config.arpPendingMaxPerIp then u.queue x.waitIp
        else u.queue x.waitIp ++ [⟨m, now⟩] := by
      rw [hqueue, ← hwaitIp, enqueuePending, if_neg hidle]
      split_ifs
      · rfl
      · exact listAt_insert_self _ _ _
    have houtcome := dispose_pending u hpend (hwaitIp ▸ hidle) m now buf Config.ioRxBurst
    rw [← hwaitIp] at houtcome
    generalize u.dispose o m now buf Config.ioRxBurst = u' at hne hself houtcome ⊢
    rw [hno] at hdemand
    simp only [Bool.false_eq_true, if_false, Nat.add_zero] at hdemand
    have hrecent := h.probes x.waitIp
    have hconcat := probed_concat w now vs x
    -- no probe is asked for, or none that was not asked for before
    have hquiet : ((x.probe && !w.probedRecently x.waitIp now) = true → x.waitIp ∈ w.probed now vs) →
        u'.tx = u.tx → u'.gw.arpProbeLastMs = u.gw.arpProbeLastMs →
          Tracked w now (vs ++ [x]) u' := by
      intro hask htx hlast
      rw [if_neg fun hc => hc.2 (hask hc.1), Nat.add_zero] at hdemand
      refine h.tracked hw hwait ?_ ?_ ?_ hne m fun _ => hself
      · rw [htx, hn, hdemand]
      · rw [htx]
        exact hle
      · intro ip
        rw [probedRecently_congr (congrArg (AList.lookup ip) hlast), h.probes, hconcat]
        split_ifs with hc
        · rw [Finset.insert_eq_of_mem (hask hc)]
        · rfl
    cases houtcome with
    | early hearly htx hlast =>
        refine Or.inl (hquiet ?_ htx hlast)
        intro hask
        rcases hrecent.mp hearly with hw | hmem
        · simp [hw] at hask
        · exact hmem
    | failed hearly hwhy htx hlast =>
        rcases hwhy with hbuf | hfull
        · refine Or.inl (hquiet ?_ htx hlast)
          intro hask
          rw [Bool.and_eq_true, hprobe, decide_eq_true_eq] at hask
          exact absurd hbuf hask.1.2
        · right
          rw [htx]
          omega
    | sent hearly hbuf hroom probe _ htx hlast =>
        left
        rw [hearly, Bool.false_eq_true, false_iff, not_or, Bool.not_eq_true] at hrecent
        obtain ⟨hfresh, hnew⟩ := hrecent
        have hask : (x.probe && !w.probedRecently x.waitIp now) = true := by
          rw [hprobe, hfresh, decide_eq_true ⟨hidle, hbuf⟩]
          rfl
        have hn' : u'.tx.n = u.tx.n + 1 := by
          rw [htx]
          exact pushTx_n u probe
        rw [if_pos ⟨hask, hnew⟩] at hdemand
        refine h.tracked hw hwait (by omega) (by omega) ?_ hne m fun _ => hself
        intro ip
        rw [hconcat, if_pos hask, Finset.mem_insert]
        by_cases hip : ip = x.waitIp
        · subst hip
          simp [probedRecently, hlast, Config.arpProbeIntervalMs]
        · have hlookup : u'.gw.arpProbeLastMs.lookup ip = u.gw.arpProbeLastMs.lookup ip := by
            rw [hlast, AList.lookup_insert_ne hip]
          rw [probedRecently_congr hlookup, h.probes]
          simp [hip]

/-- How far a burst has come with the frames `vs`: everything found room, or the array is full. -/
structure Accounted (w : Worker) (now : UInt64) (vs : List Verdict) (v : Worker) : Prop where
  resolves : ∀ ip ∈ Verdict.released vs, ip ≠ 0 ∧ v.gw.Resolves ip
  counts : Tracked w now vs v ∨
    (Config.ioRxBurst ≤ v.tx.n ∧ Config.ioRxBurst ≤ w.demand now vs)

/-- The addresses released so far are resolved when one more frame was handled. -/
theorem Accounted.resolves_concat (h : Accounted w now vs v) (m : Mbuf) (buf : Option Frame)
    (hx : x = v.gw.verdict rte now m.frame buf) :
    ∀ ip ∈ Verdict.released (vs ++ [x]),
      ip ≠ 0 ∧ ((v.gw.handle rte now).run m.frame).val.2.Resolves ip := by
  intro ip hip
  have hold : ip ∈ Verdict.released vs →
      ip ≠ 0 ∧ ((v.gw.handle rte now).run m.frame).val.2.Resolves ip := fun hmem =>
    ⟨(h.resolves ip hmem).1, VioletGW.handle_resolves rte (h.resolves ip hmem).2 now m.frame⟩
  rw [Verdict.released_concat] at hip
  split_ifs at hip with hres
  · rcases Finset.mem_insert.mp hip with rfl | hmem
    · rw [hx] at hres ⊢
      rw [VioletGW.verdict, Bool.and_eq_true, decide_eq_true_eq] at hres
      exact hres
    · exact hold hmem
  · exact hold hip

/-- One more frame: the counts go on, and the frame itself is written inside the array exactly if no
more than 32 packets are asked for up to it. -/
theorem Accounted.handleRx (h : Accounted w now vs v) (hw : w.Sound cfg) (hv : v.Sound cfg)
    (m : Mbuf) (buf : Option Frame) (hx : x = v.gw.verdict rte now m.frame buf) :
    Accounted w now (vs ++ [x]) (v.handleRx rte m now buf Config.ioRxBurst) ∧
      ((v.SendsNow rte m now →
          (v.afterFlush rte m now Config.ioRxBurst).tx.n < Config.ioRxBurst) ↔
        (x.answered = true → w.demand now (vs ++ [x]) ≤ Config.ioRxBurst)) := by
  have hresolves := h.resolves_concat m buf hx
  have hstep := v.gw.handle_cases rte hv.1.sessions now m.frame
  have hwaitIp : x.waitIp = v.gw.waitIp rte now m.frame := congrArg Verdict.waitIp hx
  have hanswered : x.answered = decide ((v.gw.handle rte now).run m.frame).val.1.result.IsTx :=
    congrArg Verdict.answered hx
  have hprobe : x.probe = decide (x.waitIp ≠ 0 ∧ ¬NoProbeBuf buf) := by
    rw [hx]
    rfl
  -- a frame never waits for an address that is resolved
  have hwait : ∀ ip ∈ Verdict.released (vs ++ [x]), x.waitIp ≠ ip := by
    intro ip hip heq
    obtain ⟨hne, hres⟩ := hresolves ip hip
    rw [hwaitIp, VioletGW.waitIp] at heq
    split_ifs at heq with hpend
    · exact hstep.unresolved hpend (heq ▸ hres)
    · exact hne heq.symm
  have hdemand := demand_concat w now hwait
  -- after the flush
  have hflush : Flushed w now vs x (v.afterFlush rte m now Config.ioRxBurst) ∨
      (Config.ioRxBurst ≤ (v.afterFlush rte m now Config.ioRxBurst).tx.n ∧
        Config.ioRxBurst ≤ w.demand now vs +
          if x.resolved ∧ x.announced ∉ Verdict.released vs then w.backlog now x.announced vs
          else 0) := by
    rcases h.counts with htracked | ⟨hfull, hover⟩
    · exact htracked.flush hv (fun ip hip => (h.resolves ip hip).2) m buf hx
    · refine Or.inr ⟨hfull.trans (v.afterFlush_appends rte m now _).n_le, ?_⟩
      exact hover.trans (Nat.le_add_right _ _)
  refine ⟨⟨?_, ?_⟩, ?_⟩
  · intro ip hip
    obtain ⟨hne, hres⟩ := hresolves ip hip
    refine ⟨hne, ?_⟩
    rw [VioletGW.Resolves, (handleRx_core rte v m now buf Config.ioRxBurst).neighbors]
    exact hres
  · show Tracked w now (vs ++ [x]) ((v.afterFlush rte m now Config.ioRxBurst).dispose _ _ now buf
      Config.ioRxBurst) ∨ _
    rcases hflush with hflushed | ⟨hfull, hover⟩
    · exact hflushed.dispose hw hwait hanswered hwaitIp hprobe _
    · refine Or.inr ⟨hfull.trans (dispose_grows _ _ _ _ _ _).n_le, ?_⟩
      omega
  · have hsends : v.SendsNow rte m now ↔ x.answered = true := by
      rw [hanswered, decide_eq_true_eq]
      rfl
    rw [hsends]
    refine forall_congr' fun hyes => ?_
    have hno : x.probe = false := by
      rw [hprobe, decide_eq_false_iff_not]
      rintro ⟨hne, -⟩
      rw [hwaitIp, VioletGW.waitIp] at hne
      split_ifs at hne with hpend
      · rw [hanswered, hpend] at hyes
        cases hyes
      · exact hne rfl
    rw [if_pos hyes, hno] at hdemand
    simp only [Bool.false_and, Bool.false_eq_true, false_and, if_false, Nat.add_zero] at hdemand
    rcases hflush with hflushed | ⟨hfull, hover⟩
    · have hn := hflushed.n_eq
      omega
    · omega

/-- The frames that are transmitted at once find room: with everything that is asked for up to such a
frame, it is one of at most 32 packets. -/
def RoomFor (w : Worker) (now : UInt64) (vs : List Verdict) : Prop :=
  ∀ seen x, seen ++ [x] <+: vs → x.answered = true → w.demand now (seen ++ [x]) ≤ Config.ioRxBurst

theorem Accounted.setRx (h : Accounted w now vs v) (rx : List Mbuf) :
    Accounted w now vs { v with rx := rx } where
  resolves := h.resolves
  counts := h.counts.imp_left fun t => ⟨t.n_eq, t.n_le, t.probes, t.empty, t.live, t.stored⟩

theorem Sound.setRx (h : v.Sound cfg) (rx : List Mbuf) : ({ v with rx := rx } : Worker).Sound cfg :=
  ⟨⟨h.1.vip, h.1.gatewayIp, h.1.tableIp, h.1.sessions, h.1.own, h.1.noZero⟩, h.2⟩

/-- The non-empty prefixes of a list, by their last elements. -/
theorem forall_prefix_cons {α : Type} {P : List α → α → Prop} {y : α} {ys : List α} :
    (∀ seen x, seen ++ [x] <+: y :: ys → P seen x) ↔
      P [] y ∧ ∀ seen x, seen ++ [x] <+: ys → P (y :: seen) x := by
  constructor
  · intro h
    refine ⟨h [] y ⟨ys, rfl⟩, fun seen x hpre => h (y :: seen) x ?_⟩
    exact (List.prefix_cons_inj y).mpr hpre
  · rintro ⟨hfirst, hrest⟩ seen x hpre
    cases seen with
    | nil =>
        obtain rfl : x = y := ((List.cons_prefix_cons).mp hpre).1
        exact hfirst
    | cons z seen =>
        obtain ⟨rfl, htail⟩ := List.cons_prefix_cons.mp hpre
        exact hrest seen x htail

variable (rte) in
theorem handleBurst_txOk_iff (hw : w.Sound cfg) (burst : List (Frame × Option Frame)) :
    ∀ {vs : List Verdict} {v : Worker}, Accounted w now vs v → v.Sound cfg → v.TxOk →
      v.rx.map Mbuf.frame = burst.map Prod.fst →
      ((LoopState.handleBurst rte now (burst.map Prod.snd) v).TxOk ↔
        ∀ seen x, seen ++ [x] <+: VioletGW.verdicts rte now v.gw burst → x.answered = true →
          w.demand now (vs ++ (seen ++ [x])) ≤ Config.ioRxBurst) := by
  induction burst with
  | nil =>
      intro vs v _ _ hok _
      refine ⟨fun _ seen x hpre => ?_, fun _ => hok⟩
      rw [VioletGW.verdicts, List.prefix_nil] at hpre
      simp at hpre
  | cons y burst ih =>
      obtain ⟨f, buf⟩ := y
      intro vs v h hv hok hrx
      obtain ⟨m, rest, hm, rfl, hrest⟩ := List.map_eq_cons_iff.mp hrx
      have hv' := hv.setRx rest
      have hcore := handleRx_core rte { v with rx := rest } m now buf Config.ioRxBurst
      have hsound : ({ v with rx := rest }.handleRx rte m now buf Config.ioRxBurst).Sound cfg := by
        have hnext := step_sound rte v (.handleNext now buf) hv
        simp only [step, hm] at hnext
        exact hnext
      have hone := handleRx_txOk_iff rte (w := { v with rx := rest }) hok m now buf
      obtain ⟨hnext, hroom⟩ := (h.setRx rest).handleRx hw hv' m buf rfl
      rw [hroom] at hone
      simp only [List.map_cons, LoopState.handleBurst, step, hm]
      rw [VioletGW.verdicts, forall_prefix_cons, List.nil_append]
      have hrestIff := fun hok => ih hnext hsound hok ((handleRx_rx rte _ m now buf _).symm ▸ hrest)
      rw [VioletGW.verdicts_sameCore rte now burst hcore] at hrestIff
      simp only [List.append_assoc, List.singleton_append] at hrestIff
      constructor
      · intro hall
        -- a write out of bounds by the first frame would still be in the log
        have hfirst := (handleBurst_grows rte now (burst.map Prod.snd) _).txOk hall
        exact ⟨hone.mp hfirst, (hrestIff hfirst).mp hall⟩
      · rintro ⟨hfirst, hothers⟩
        exact (hrestIff (hone.mpr hfirst)).mpr hothers

end Worker

namespace LoopState

variable (rte : Rte) (s : LoopState) (inp : LoopInput)

/-- What the received burst asks of the transmit array finds room in it. -/
def HasRoom : Prop :=
  (s.received inp).RoomFor inp.nowMs (VioletGW.verdicts rte inp.nowMs (s.received inp).gw inp.rx)

/-- In every state that the loop reaches, and for every burst, the writes to the arrays `tx` and
`drop` are inside them if and only if each frame that is transmitted at once is one of at most 32
packets asked for up to it. -/
theorem writesInBounds_iff (cfg : ServiceConfig) (shm : Option CpUpdate)
    (nicMac : Option EtherAddr) (now : UInt64) (inputs : List LoopInput) (inp : LoopInput) :
    ((run (iterate rte) (start cfg shm nicMac now) inputs).burst rte inp).WritesInBounds ↔
      (run (iterate rte) (start cfg shm nicMac now) inputs).HasRoom rte inp := by
  have hidle := run_idle rte cfg shm nicMac now inputs
  have hsound := run_sound rte cfg shm nicMac now inputs
  generalize run (iterate rte) (start cfg shm nicMac now) inputs = s at hidle hsound
  have hempty := housekeeping_idle hidle inp.nowMs inp.control
  have htx : (s.received inp).tx = {} := hempty.tx
  have hdrop : (s.received inp).drop = {} := hempty.drop
  have hreceived : (s.received inp).Sound cfg := handled_sound rte inp hsound 0
  have hstart : Worker.Accounted (s.received inp) inp.nowMs [] (s.received inp) :=
    ⟨by simp [Verdict.released], Or.inl (.received hreceived (by rw [htx]; rfl))⟩
  have hiff := Worker.handleBurst_txOk_iff rte hreceived inp.rx hstart hreceived
    (by simp [Worker.TxOk, htx]) (received_frames hidle inp)
  -- the array `drop` needs no condition: one slot for each received frame
  refine ⟨fun hb => hiff.mp hb.1, fun hroom => ⟨hiff.mpr hroom, ?_⟩⟩
  intro i hi
  have hwrite := Worker.handleBurst_drop rte inp.nowMs (inp.rx.map Prod.snd) (s.received inp) i hi
  have hlen := inp.rx_le
  simp only [hdrop, List.not_mem_nil, OutArray.n, List.length_nil, List.length_map, Nat.zero_add,
    false_or] at hwrite
  exact Nat.lt_of_lt_of_le hwrite hlen

/-- A frame from the upstream for which the frames of `labFillInput` wait, which resolves it, and one
more frame of the client. -/
def labReleaseInput : LoopInput where
  nowMs := 1001
  control := none
  rx := [(.udp [10, 0, 0, 2] [192, 168, 1, 1] 53 53, none), (Worker.labClientFrame, none)]
  rx_le := by decide
  accepted := []

/-- The packets released fill the array, and the frame of the client is written behind it. -/
theorem labReleaseInput_not_inBounds :
    ¬((run (iterate Rte.dpdk) (start .lab none none 0) [labFillInput]).burst Rte.dpdk
      labReleaseInput).WritesInBounds := by
  rw [Worker.WritesInBounds, Worker.TxOk]
  decide +kernel

end LoopState

end VioletGateway
