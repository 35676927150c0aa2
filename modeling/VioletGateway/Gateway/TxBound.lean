import VioletGateway.Gateway.Loop

/-!
# The transmit array of a burst

`flush_pending` and `maybe_probe_arp` stop at the capacity of the array `tx`, but the loop writes a
frame that is transmitted at once to `tx[n_tx++]` without a test. A queue that is released in the
middle of a burst can fill the array, and the next such frame is then written behind it.

That write is the only one that can be out of bounds (`handleRx_txOk_iff`): flushes and probes append
below the capacity (`Appends`), nothing is ever taken out of the array during a burst, and the array
`drop` has one slot for each received frame (`handleBurst_drop`). When it is out of bounds is the
subject of `Gateway/TxRoom.lean`.
-/

set_option autoImplicit false

namespace VioletGateway

open Support

/-- The frame itself goes to the transmit array. -/
def HandleResult.IsTx : HandleResult → Prop
  | .txForward | .txReverse | .txArp => True
  | .drop | .pendingArp => False

instance (result : HandleResult) : Decidable result.IsTx :=
  match result with
  | .txForward | .txReverse | .txArp => isTrue trivial
  | .drop | .pendingArp => isFalse id

namespace Worker

variable (rte : Rte) (w : Worker)

/-- All writes to the transmit array so far were inside it. -/
def TxOk : Prop := ∀ i ∈ w.tx.writes, i < Config.ioRxBurst

theorem pushTx_txOk_iff (m : Mbuf) : (w.pushTx m).TxOk ↔ w.TxOk ∧ w.tx.n < Config.ioRxBurst := by
  rw [TxOk, pushTx, OutArray.push]
  simp only [List.mem_append, List.mem_singleton]
  constructor
  · intro h
    exact ⟨fun i hi => h i (Or.inl hi), h _ (Or.inr rfl)⟩
  · rintro ⟨h, hn⟩ i (hi | rfl)
    · exact h i hi
    · exact hn

theorem pushTx_n (m : Mbuf) : (w.pushTx m).tx.n = w.tx.n + 1 := by
  simp [pushTx, OutArray.push, OutArray.n]

/-! ## The bounded writers -/

/-- The transmit array is only appended to, so a write out of bounds stays in its log. -/
structure Grows (w w' : Worker) : Prop where
  n_le : w.tx.n ≤ w'.tx.n
  txOk : w'.TxOk → w.TxOk

/-- What a flush or a probe does to the transmit array: it appends, and never beyond `cap`. -/
structure Appends (cap : Nat) (w w' : Worker) : Prop extends Grows w w' where
  inBounds : cap ≤ Config.ioRxBurst → w.TxOk → w'.TxOk

variable {w}

theorem Grows.trans {w' w'' : Worker} (h : Grows w w') (h' : Grows w' w'') : Grows w w'' :=
  ⟨Nat.le_trans h.n_le h'.n_le, fun hok => h.txOk (h'.txOk hok)⟩

theorem grows_pushTx (m : Mbuf) : Grows w (w.pushTx m) := by
  refine ⟨?_, fun hok => ((pushTx_txOk_iff w m).mp hok).1⟩
  rw [pushTx_n]
  exact Nat.le_succ _

theorem Appends.of_tx_eq {cap : Nat} {w' : Worker} (h : w'.tx = w.tx) : Appends cap w w' :=
  ⟨⟨(congrArg OutArray.n h).ge, fun hok => by simpa only [TxOk, h] using hok⟩,
    fun _ hok => by simpa only [TxOk, h] using hok⟩

theorem Appends.trans {cap : Nat} {w' w'' : Worker} (h : Appends cap w w')
    (h' : Appends cap w' w'') : Appends cap w w'' :=
  ⟨h.toGrows.trans h'.toGrows, fun hcap hok => h'.inBounds hcap (h.inBounds hcap hok)⟩

theorem Appends.pushTx {cap : Nat} (hroom : ¬cap ≤ w.tx.n) (m : Mbuf) :
    Appends cap w (w.pushTx m) := by
  refine ⟨grows_pushTx m, fun hcap hok => (pushTx_txOk_iff w m).mpr ⟨hok, ?_⟩⟩
  omega

theorem flushEntry_appends (ip : UInt32) (now : UInt64) (cap : Nat)
    (s : Worker × List ArpPendingEntry) (e : ArpPendingEntry) :
    Appends cap s.1 (flushEntry rte ip now cap s e).1 := by
  rw [flushEntry]
  dsimp only
  split_ifs with htimeout hfinish hfull
  · exact .of_tx_eq rfl
  · exact .of_tx_eq rfl
  · exact .of_tx_eq rfl
  · exact .pushTx hfull _

theorem foldl_flushEntry_appends (ip : UInt32) (now : UInt64) (cap : Nat)
    (q : List ArpPendingEntry) (s : Worker × List ArpPendingEntry) :
    Appends cap s.1 (q.foldl (flushEntry rte ip now cap) s).1 := by
  refine List.foldlRecOn (motive := fun u : Worker × _ => Appends cap s.1 u.1) q _ (.of_tx_eq rfl) ?_
  intro u hu e _
  exact hu.trans (flushEntry_appends rte ip now cap u e)

theorem storeRemaining_tx (ip : UInt32) (s : Worker × List ArpPendingEntry) :
    (storeRemaining ip s).tx = s.1.tx := by
  rw [storeRemaining]
  split_ifs <;> rfl

variable (w)

theorem flushLearned_appends (o : HandleOutcome) (now : UInt64) (cap : Nat) :
    Appends cap w (w.flushLearned rte o now cap) := by
  rcases w.flushLearned_cases rte o now with hidle | hloop
  · rw [hidle]
    exact .of_tx_eq rfl
  · rw [hloop]
    exact (foldl_flushEntry_appends rte o.learnedIp now cap (w.queue o.learnedIp) (w, [])).trans
      (.of_tx_eq (storeRemaining_tx _ _))

theorem maybeProbeArp_appends (ip : UInt32) (now : UInt64) (buf : Option Frame) (cap : Nat) :
    Appends cap w (w.maybeProbeArp ip now buf cap) := by
  have hprobe := w.maybeProbeArp_step ip now buf cap
  generalize w.maybeProbeArp ip now buf cap = w' at hprobe ⊢
  cases hprobe with
  | none => exact .of_tx_eq rfl
  | discarded m _ => exact .of_tx_eq rfl
  | sent m _ hroom =>
      have hpush := Appends.pushTx (w := w.acquire) (Nat.not_le.mpr hroom) m
      exact ⟨⟨hpush.n_le, hpush.txOk⟩, hpush.inBounds⟩

variable {w}

/-! ## One frame -/

theorem dispose_of_isTx (w : Worker) {o : HandleOutcome} (h : o.result.IsTx) (m : Mbuf)
    (now : UInt64) (buf : Option Frame) (cap : Nat) : w.dispose o m now buf cap = w.pushTx m := by
  rw [dispose]
  generalize o.result = result at h
  cases result with
  | drop => exact h.elim
  | pendingArp => exact h.elim
  | txForward => rfl
  | txReverse => rfl
  | txArp => rfl

theorem dispose_of_not_isTx (w : Worker) {o : HandleOutcome} (h : ¬o.result.IsTx) (m : Mbuf)
    (now : UInt64) (buf : Option Frame) (cap : Nat) :
    Appends cap w (w.dispose o m now buf cap) := by
  rw [dispose]
  generalize o.result = result at h
  cases result with
  | drop => exact .of_tx_eq rfl
  | pendingArp =>
      exact (Appends.of_tx_eq (w.enqueuePending_arrays _ _ _).tx).trans (maybeProbeArp_appends _ _ _ _ _)
  | txForward => exact absurd trivial h
  | txReverse => exact absurd trivial h
  | txArp => exact absurd trivial h

theorem dispose_grows (w : Worker) (o : HandleOutcome) (m : Mbuf) (now : UInt64)
    (buf : Option Frame) (cap : Nat) : Grows w (w.dispose o m now buf cap) := by
  by_cases h : o.result.IsTx
  · rw [dispose_of_isTx w h]
    exact grows_pushTx m
  · exact (dispose_of_not_isTx w h m now buf cap).toGrows

/-- The worker after the frame of `m` was handled and the packets that it releases were flushed. -/
def afterFlush (w : Worker) (m : Mbuf) (now : UInt64) (cap : Nat) : Worker :=
  ({ w with gw := ((w.gw.handle rte now).run m.frame).val.2 } : Worker).flushLearned rte
    ((w.gw.handle rte now).run m.frame).val.1 now cap

/-- The frame of `m` is transmitted at once. -/
def SendsNow (w : Worker) (m : Mbuf) (now : UInt64) : Prop :=
  ((w.gw.handle rte now).run m.frame).val.1.result.IsTx

theorem afterFlush_appends (w : Worker) (m : Mbuf) (now : UInt64) (cap : Nat) :
    Appends cap w (w.afterFlush rte m now cap) := by
  have hhandle : Appends cap w { w with gw := ((w.gw.handle rte now).run m.frame).val.2 } :=
    .of_tx_eq rfl
  exact hhandle.trans (flushLearned_appends rte _ _ now cap)

theorem handleRx_grows (w : Worker) (m : Mbuf) (now : UInt64) (buf : Option Frame) (cap : Nat) :
    Grows w (w.handleRx rte m now buf cap) :=
  (w.afterFlush_appends rte m now cap).toGrows.trans (dispose_grows _ _ _ now buf cap)

/-- The write of a frame that is transmitted at once is the only one that can be out of bounds. -/
theorem handleRx_txOk_iff (hok : w.TxOk) (m : Mbuf) (now : UInt64) (buf : Option Frame) :
    (w.handleRx rte m now buf Config.ioRxBurst).TxOk ↔
      (w.SendsNow rte m now → (w.afterFlush rte m now Config.ioRxBurst).tx.n < Config.ioRxBurst) := by
  have hflush := (w.afterFlush_appends rte m now Config.ioRxBurst).inBounds (Nat.le_refl _) hok
  show ((w.afterFlush rte m now Config.ioRxBurst).dispose _ _ now buf Config.ioRxBurst).TxOk ↔ _
  by_cases hsend : w.SendsNow rte m now
  · rw [dispose_of_isTx _ hsend, pushTx_txOk_iff]
    exact ⟨fun h _ => h.2, fun h => ⟨hflush, h hsend⟩⟩
  · have hdispose := (dispose_of_not_isTx (w.afterFlush rte m now Config.ioRxBurst) hsend
      { m with frame := ((w.gw.handle rte now).run m.frame).mem } now buf Config.ioRxBurst).inBounds
        (Nat.le_refl _) hflush
    exact ⟨fun _ hsend' => absurd hsend' hsend, fun _ => hdispose⟩

/-! ## Bursts -/

theorem handleBurst_grows (now : UInt64) (bufs : List (Option Frame)) :
    ∀ w : Worker, Grows w (LoopState.handleBurst rte now bufs w) := by
  induction bufs with
  | nil => exact fun w => ⟨Nat.le_refl _, id⟩
  | cons buf bufs ih =>
      intro w
      refine Grows.trans ?_ (ih _)
      cases hrx : w.rx with
      | nil =>
          simp only [step, hrx]
          exact ⟨Nat.le_refl _, id⟩
      | cons m rest =>
          simp only [step, hrx]
          have hgrows := handleRx_grows rte { w with rx := rest } m now buf Config.ioRxBurst
          exact ⟨hgrows.n_le, hgrows.txOk⟩

/-! ## The drop array -/

/-- A frame is dropped by one write to the array. -/
theorem dispose_drop (w : Worker) (o : HandleOutcome) (m : Mbuf) (now : UInt64)
    (buf : Option Frame) (cap : Nat) :
    (w.dispose o m now buf cap).drop = w.drop ∨ (w.dispose o m now buf cap).drop = w.drop.push m := by
  rw [dispose]
  cases o.result with
  | drop => exact Or.inr rfl
  | pendingArp =>
      left
      rw [(maybeProbeArp_arrays _ _ _ _ _).drop, (enqueuePending_arrays _ _ _ _).drop]
  | txForward => exact Or.inl rfl
  | txReverse => exact Or.inl rfl
  | txArp => exact Or.inl rfl

theorem step_handleNext_drop (w : Worker) (now : UInt64) (buf : Option Frame) :
    (w.step rte (.handleNext now buf)).drop = w.drop ∨
      ∃ m, (w.step rte (.handleNext now buf)).drop = w.drop.push m := by
  cases hrx : w.rx with
  | nil =>
      left
      simp only [step, hrx]
  | cons m rest =>
      simp only [step, hrx]
      have hflush : ({ w with rx := rest }.afterFlush rte m now Config.ioRxBurst).drop = w.drop :=
        (flushLearned_arrays rte _ _ now Config.ioRxBurst).drop
      rcases dispose_drop ({ w with rx := rest }.afterFlush rte m now Config.ioRxBurst)
        ((w.gw.handle rte now).run m.frame).val.1
        ⟨m.addr, ((w.gw.handle rte now).run m.frame).mem⟩ now buf Config.ioRxBurst with hsame | hpush
      · exact Or.inl (hsame.trans hflush)
      · rw [hflush] at hpush
        exact Or.inr ⟨_, hpush⟩

/-- A burst of `k` frames writes at most the `k` slots from the fill count on. -/
theorem handleBurst_drop (now : UInt64) (bufs : List (Option Frame)) :
    ∀ (w : Worker), ∀ i ∈ (LoopState.handleBurst rte now bufs w).drop.writes,
      i ∈ w.drop.writes ∨ i < w.drop.n + bufs.length := by
  induction bufs with
  | nil => exact fun _ _ hi => Or.inl hi
  | cons buf bufs ih =>
      intro w i hi
      -- one frame writes at most the slot at the fill count
      have hrest := ih (w.step rte (.handleNext now buf)) i hi
      rw [List.length_cons]
      rcases w.step_handleNext_drop rte now buf with hsame | ⟨m, hpush⟩
      · rw [hsame] at hrest
        exact hrest.imp_right fun hlt => by omega
      · rw [hpush] at hrest
        simp only [OutArray.push, OutArray.n, List.mem_append, List.mem_singleton,
          List.length_append, List.length_singleton] at hrest ⊢
        rcases hrest with (hold | hnew) | hlt
        · exact Or.inl hold
        · right
          omega
        · right
          omega

/-- All writes to the two arrays so far were inside them. -/
def WritesInBounds (w : Worker) : Prop := w.TxOk ∧ ∀ i ∈ w.drop.writes, i < Config.ioRxBurst

end Worker

/-! ## Iterations -/

namespace LoopState

variable (rte : Rte) (s : LoopState) (inp : LoopInput)

/-- The worker when the received burst is in the array `rx`. -/
def received : Worker :=
  (s.housekeeping inp.nowMs inp.control).worker.recvBurst (inp.rx.map Prod.fst)

/-- The worker when the burst is handled and nothing is sent yet. -/
def burst : Worker := handleBurst rte inp.nowMs (inp.rx.map Prod.snd) (s.received inp)

/-- An iteration that receives something ends by sending what its burst has put into the arrays. -/
theorem iterate_eq_burst (h : inp.rx ≠ []) :
    (s.iterate rte inp).worker = (s.burst rte inp).finishBurst inp.accepted := by
  rw [iterate]
  dsimp only
  rw [if_neg h]
  rfl

/-- A burst of 32 frames of one client whose upstream, new from the control plane, is unresolved. -/
def labFillInput : LoopInput where
  nowMs := 1000
  control := some ⟨.mod, [⟨Config.ipv4From ![10, 0, 0, 2], 53⟩]⟩
  rx := List.replicate 32 (Worker.labClientFrame, none)
  rx_le := by decide
  accepted := []

end LoopState

end VioletGateway
