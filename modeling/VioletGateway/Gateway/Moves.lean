import VioletGateway.Gateway.Worker

/-!
# What the methods of the worker do

The methods that move packets about have many branches; here each of them is said once.
`maybeProbeArp_cases` lists what becomes of a probe, and `flushLearned_cases` says that a flush is a
loop over one queue. Both hold whatever the capacity of the transmit array, so that runs with
different capacities can be compared. Which of the arrays a method leaves alone is said by
`SameButTx` and `SameArrays`.
-/

set_option autoImplicit false

namespace VioletGateway

open Support

namespace Worker

variable (rte : Rte) (w : Worker)

/-! ## Probes -/

/-- The worker when the mempool has given out a buffer. -/
def acquire : Worker := { w with pool := { w.pool with next := w.pool.next + 1 } }

/-- `arp_probe_last_ms_[ip_be] = now_ms`. -/
def recordProbe (ip : UInt32) (now : UInt64) : Worker :=
  { w with gw := { w.gw with arpProbeLastMs := w.gw.arpProbeLastMs.insert ip now } }

theorem makeRequest_cases (ip : UInt32) (buf : Option Frame) :
    w.makeRequest ip buf = (none, w) ∨ ∃ m : Mbuf, m.addr = w.pool.next ∧
      (w.makeRequest ip buf = (none, w.acquire.free m) ∨
        w.makeRequest ip buf = (some m, w.acquire)) := by
  rw [makeRequest]
  cases buf with
  -- the mempool is exhausted
  | none => exact Or.inl rfl
  | some f =>
      right
      dsimp only [MbufPool.alloc]
      split_ifs
      · exact ⟨_, rfl, Or.inr rfl⟩
      -- the buffer has no room for the frame
      · exact ⟨_, rfl, Or.inl rfl⟩

/-- Whatever the capacity: no buffer is taken, or a new one is, and it is discarded in any case or
sent if there is room for it. -/
theorem maybeProbeArp_cases (ip : UInt32) (now : UInt64) (buf : Option Frame) :
    (∀ c, w.maybeProbeArp ip now buf c = w) ∨ ∃ m : Mbuf, m.addr = w.pool.next ∧
      ((∀ c, w.maybeProbeArp ip now buf c = w.acquire.free m) ∨
        ∀ c, w.maybeProbeArp ip now buf c =
          if w.tx.n ≥ c then w.acquire.free m else (w.acquire.pushTx m).recordProbe ip now) := by
  simp only [maybeProbeArp]
  by_cases hskip : ip = 0 ∨ w.probedRecently ip now = true
  · left
    intro c
    rcases hskip with hzero | hrecent
    · rw [if_pos hzero]
    · rw [if_pos hrecent, ite_self]
  · obtain ⟨hzero, hrecent⟩ := not_or.mp hskip
    simp only [if_neg hzero, if_neg hrecent]
    rcases w.makeRequest_cases ip buf with hnone | ⟨m, hm, hfreed | hmade⟩
    · left
      intro c
      rw [hnone]
    · right
      refine ⟨m, hm, Or.inl fun c => ?_⟩
      rw [hfreed]
    · right
      refine ⟨m, hm, Or.inr fun c => ?_⟩
      rw [hmade]
      rfl

/-- The same for one capacity. -/
inductive ProbeStep (ip : UInt32) (now : UInt64) (cap : Nat) : Worker → Prop
  | none : ProbeStep ip now cap w
  | discarded (m : Mbuf) (hm : m.addr = w.pool.next) : ProbeStep ip now cap (w.acquire.free m)
  | sent (m : Mbuf) (hm : m.addr = w.pool.next) (hroom : w.tx.n < cap) :
      ProbeStep ip now cap ((w.acquire.pushTx m).recordProbe ip now)

theorem maybeProbeArp_step (ip : UInt32) (now : UInt64) (buf : Option Frame) (cap : Nat) :
    w.ProbeStep ip now cap (w.maybeProbeArp ip now buf cap) := by
  rcases w.maybeProbeArp_cases ip now buf with hnone | ⟨m, hm, hfreed | hmade⟩
  · rw [hnone]
    exact .none
  · rw [hfreed]
    exact .discarded m hm
  · rw [hmade]
    split_ifs with hfull
    · exact .discarded m hm
    · exact .sent m hm (Nat.not_le.mp hfull)

/-! ## Flushes -/

theorem foldl_flushEntry_gw (ip : UInt32) (now : UInt64) (cap : Nat) (q : List ArpPendingEntry)
    (s : Worker × List ArpPendingEntry) :
    (q.foldl (flushEntry rte ip now cap) s).1.gw = s.1.gw := by
  refine List.foldlRecOn (motive := fun u : Worker × _ => u.1.gw = s.1.gw) q _ rfl ?_
  intro u hu e _
  refine Eq.trans ?_ hu
  rw [flushEntry]
  dsimp only
  split_ifs <;> rfl

theorem foldl_flushEntry_queue (ip ip' : UInt32) (now : UInt64) (cap : Nat)
    (q : List ArpPendingEntry) (s : Worker × List ArpPendingEntry) :
    (q.foldl (flushEntry rte ip now cap) s).1.queue ip' = s.1.queue ip' :=
  congrArg (fun g : VioletGW => listAt g.arpPending ip') (foldl_flushEntry_gw rte ip now cap q s)

/-- The end of `flush_pending`: the packets that remain become the queue. -/
def storeRemaining (ip : UInt32) (s : Worker × List ArpPendingEntry) : Worker :=
  if s.2 = [] then s.1.setPending (s.1.gw.arpPending.erase ip)
  else s.1.setPending (s.1.gw.arpPending.insert ip s.2)

theorem storeRemaining_queue (ip ip' : UInt32) (s : Worker × List ArpPendingEntry) :
    (storeRemaining ip s).queue ip' = if ip' = ip then s.2 else s.1.queue ip' := by
  simp only [storeRemaining, queue, setPending]
  split_ifs with hrest hip hip
  · rw [hip, hrest, listAt_erase_self]
  · exact listAt_erase_ne _ hip
  · rw [hip, listAt_insert_self]
  · exact listAt_insert_ne _ hip _

/-- A flush does nothing, whatever the capacity, or it runs its loop. -/
theorem flushLearned_cases (o : HandleOutcome) (now : UInt64) :
    (∀ c, w.flushLearned rte o now c = w) ∨
      ∀ c, w.flushLearned rte o now c = storeRemaining o.learnedIp
        ((w.queue o.learnedIp).foldl (flushEntry rte o.learnedIp now c) (w, [])) := by
  simp only [flushLearned, flushPending]
  by_cases hlearned : o.learnedIp ≠ 0
  · by_cases hqueue : w.queue o.learnedIp = []
    · left
      intro c
      rw [if_pos hlearned, if_pos hqueue, ite_self]
    · right
      intro c
      rw [if_pos hlearned, if_neg hlearned, if_neg hqueue]
      rfl
  · left
    intro c
    rw [if_neg hlearned]

/-- `expire_pending` removes the packets from every queue that have waited too long. -/
theorem expirePending_queue (now : UInt64) (ip : UInt32) :
    (w.expirePending now).queue ip = (w.queue ip).filter fun e => !timedOut now e := by
  have hqueue : (w.expirePending now).queue ip =
      ((w.gw.arpPending.lookup ip).bind (unexpired now)).getD [] :=
    congrArg (Option.getD · []) (lookup_mapMaybe _ _ _)
  rw [hqueue]
  rw [queue, listAt]
  cases w.gw.arpPending.lookup ip with
  | none => rfl
  | some q =>
      simp only [Option.bind_some, unexpired, Option.getD_some]
      split_ifs with hnil
      · exact hnil.symm
      · rfl

/-! ## The arrays -/

/-- A method that leaves `rx` and `drop` alone. -/
structure SameButTx (w w' : Worker) : Prop where
  rx : w'.rx = w.rx
  drop : w'.drop = w.drop

/-- A method that leaves all three arrays alone. -/
structure SameArrays (w w' : Worker) : Prop extends SameButTx w w' where
  tx : w'.tx = w.tx

theorem SameButTx.trans {w w' w'' : Worker} (h : SameButTx w w') (h' : SameButTx w' w'') :
    SameButTx w w'' :=
  ⟨h'.rx.trans h.rx, h'.drop.trans h.drop⟩

theorem enqueuePending_arrays (ip : UInt32) (m : Mbuf) (now : UInt64) :
    SameArrays w (w.enqueuePending ip m now) := by
  rw [enqueuePending]
  split_ifs <;> exact ⟨⟨rfl, rfl⟩, rfl⟩

theorem maybeProbeArp_arrays (ip : UInt32) (now : UInt64) (buf : Option Frame) (cap : Nat) :
    SameButTx w (w.maybeProbeArp ip now buf cap) := by
  have hprobe := w.maybeProbeArp_step ip now buf cap
  generalize w.maybeProbeArp ip now buf cap = w' at hprobe ⊢
  cases hprobe <;> exact ⟨rfl, rfl⟩

theorem foldl_flushEntry_arrays (ip : UInt32) (now : UInt64) (cap : Nat)
    (q : List ArpPendingEntry) (s : Worker × List ArpPendingEntry) :
    SameButTx s.1 (q.foldl (flushEntry rte ip now cap) s).1 := by
  refine List.foldlRecOn (motive := fun u : Worker × _ => SameButTx s.1 u.1) q _ ⟨rfl, rfl⟩ ?_
  intro u hu e _
  apply hu.trans
  rw [flushEntry]
  dsimp only
  split_ifs <;> exact ⟨rfl, rfl⟩

theorem flushLearned_arrays (o : HandleOutcome) (now : UInt64) (cap : Nat) :
    SameButTx w (w.flushLearned rte o now cap) := by
  have hloop := foldl_flushEntry_arrays rte o.learnedIp now cap (w.queue o.learnedIp) (w, [])
  rcases w.flushLearned_cases rte o now with hidle | hflush
  · rw [hidle]
    exact ⟨rfl, rfl⟩
  · rw [hflush]
    rw [storeRemaining]
    split_ifs <;> exact ⟨hloop.rx, hloop.drop⟩

end Worker

end VioletGateway
