import VioletGateway.Io.TxProgress

/-!
# Progress towards the worker in pipeline mode

The other direction of `VioletGateway.Io.TxProgress`. While the RX lcore goes on with its loop and the
worker calls `recv_burst` again and again, every packet that the NIC delivers reaches the worker, or is
freed because the ring was full (`Pipeline.eventually_received`).
-/

set_option autoImplicit false

namespace VioletGateway

open Support

/-! ## The way in -/

/-- What lies between the NIC and the worker. -/
structure RxSide where
  rxLcore : RxLcore
  rxRing : Ring Nat
  arrived : List Nat
  received : List Nat
  freed : List Nat

def Pipeline.rx (s : Pipeline) : RxSide where
  rxLcore := s.rxLcore
  rxRing := s.rxRing
  arrived := s.arrived
  received := s.received
  freed := s.freed

namespace Pipeline

variable {s : Pipeline}

/-- The event finds its party elsewhere. -/
def RxStalls (s : Pipeline) : Event → Prop
  | .nicRecvPush _ => s.rxLcore = .idle
  | .recvBurst _ _ => s.workerLcore ≠ .running
  | _ => True

/-- All that a step can do on the way in. Packets are freed on the way out and by the worker too. -/
inductive RxMove (s : Pipeline) (e : Event) : RxSide → Prop
  | same (pkts : List Nat) : s.RxStalls e → RxMove s e { s.rx with freed := s.freed ++ pkts }
  | arrive {n : Nat} (mbufs : List Nat) : e = .nicRecv n → s.rxLcore = .idle →
      RxMove s e { s.rx with arrived := s.arrived ++ mbufs, rxLcore := .pushing mbufs 0 }
  | drop {mbufs : List Nat} {enqueued k : Nat} : e = .nicRecvPush k →
      s.rxLcore = .pushing mbufs enqueued →
      RxMove s e { s.rx with rxLcore := .idle, freed := s.freed ++ mbufs.drop enqueued }
  | push {mbufs : List Nat} {enqueued k : Nat} (lcore : RxLcore) : e = .nicRecvPush k →
      s.rxLcore = .pushing mbufs enqueued → 0 < s.rxRing.accepts (mbufs.drop enqueued) k →
      lcore.hands = mbufs.drop (enqueued + s.rxRing.accepts (mbufs.drop enqueued) k) →
      RxMove s e
        { s.rx with
          rxLcore := lcore
          rxRing := (s.rxRing.pushBurst (mbufs.drop enqueued) k).2 }
  | recv {n k : Nat} : e = .recvBurst n k → s.workerLcore = .running →
      RxMove s e
        { s.rx with
          rxRing := (s.rxRing.popBurst n k).2
          received := s.received ++ (s.rxRing.popBurst n k).1 }

/-- A step that leaves the way in alone. -/
theorem RxMove.of_eq {e : Event} {r : RxSide} (hr : r = s.rx) (hstall : s.RxStalls e) :
    s.RxMove e r := by
  have heq : r = { s.rx with freed := s.freed ++ [] } := by
    rw [hr, List.append_nil]
    rfl
  rw [heq]
  exact .same [] hstall

theorem nicRecv_rx (s : Pipeline) (n : Nat) : s.RxMove (.nicRecv n) (s.nicRecv n).rx := by
  rw [Pipeline.nicRecv]
  split
  · exact .of_eq rfl trivial
  · rename_i hidle
    dsimp only
    split_ifs with hlen
    · refine .of_eq ?_ trivial
      rw [List.length_eq_zero_iff.mp hlen]
      simp [Pipeline.rx]
    · exact .arrive _ rfl hidle

theorem nicRecvPush_rx (s : Pipeline) (k : Nat) : s.RxMove (.nicRecvPush k) (s.nicRecvPush k).rx := by
  rw [Pipeline.nicRecvPush]
  split
  · rename_i hidle
    exact .of_eq rfl hidle
  · rename_i mbufs enqueued hrx
    have hgot : (s.rxRing.pushBurst (mbufs.drop enqueued) k).1 =
        s.rxRing.accepts (mbufs.drop enqueued) k := rfl
    dsimp only
    rw [hgot]
    split_ifs with hfull hmore
    · rw [Ring.pushBurst_of_accepts hfull]
      exact .drop rfl hrx
    · exact .push _ rfl hrx (Nat.pos_of_ne_zero hfull) rfl
    · -- the last round
      refine .push .idle rfl hrx (Nat.pos_of_ne_zero hfull) ?_
      exact (List.drop_eq_nil_of_le (Nat.not_lt.mp hmore)).symm

theorem recvBurst_rx (s : Pipeline) (n k : Nat) : s.RxMove (.recvBurst n k) (s.recvBurst n k).rx := by
  rw [Pipeline.recvBurst]
  split
  · rename_i pkts sent hw
    refine .of_eq rfl fun hrunning => ?_
    exact WorkerLcore.noConfusion (hw.symm.trans hrunning)
  · rename_i hrunning
    exact .recv rfl hrunning

theorem free_rx (s : Pipeline) (m : Nat) : s.RxMove (.free m) (s.free m).rx := by
  rw [Pipeline.free]
  split
  · exact .of_eq rfl trivial
  · split_ifs with hm
    · exact .same [m] trivial
    · exact .of_eq rfl trivial

theorem nicSendBurst_rx (s : Pipeline) (n : Nat) :
    s.RxMove (.nicSendBurst n) (s.nicSendBurst n).rx := by
  rw [Pipeline.nicSendBurst]
  split
  · exact .of_eq rfl trivial
  · rename_i mbufs htx
    exact .same (mbufs.drop n) trivial

theorem alloc_rx (s : Pipeline) : s.alloc.rx = s.rx := by
  rw [Pipeline.alloc]
  split <;> rfl

theorem sendBurst_rx (s : Pipeline) (pkts : List Nat) : (s.sendBurst pkts).rx = s.rx := by
  rw [Pipeline.sendBurst]
  split
  · rfl
  · dsimp only
    split_ifs <;> rfl

theorem sendBurstPush_rx (s : Pipeline) (k : Nat) : (s.sendBurstPush k).rx = s.rx := by
  rw [Pipeline.sendBurstPush]
  split
  · rfl
  · dsimp only
    split_ifs <;> rfl

theorem nicSend_rx (s : Pipeline) (k : Nat) : (s.nicSend k).rx = s.rx := by
  rw [Pipeline.nicSend]
  split
  · rfl
  · dsimp only
    split_ifs <;> rfl

/-- What a step does on the way in. -/
theorem step_rx (s : Pipeline) (e : Event) : s.RxMove e (s.step e).rx := by
  cases e with
  | nicRecv n => exact s.nicRecv_rx n
  | nicRecvPush k => exact s.nicRecvPush_rx k
  | recvBurst n k => exact s.recvBurst_rx n k
  | alloc => exact .of_eq s.alloc_rx trivial
  | free m => exact s.free_rx m
  | sendBurst pkts => exact .of_eq (s.sendBurst_rx pkts) trivial
  | sendBurstPush k => exact .of_eq (s.sendBurstPush_rx k) trivial
  | nicSend k => exact .of_eq (s.nicSend_rx k) trivial
  | nicSendBurst n => exact s.nicSendBurst_rx n

end Pipeline

namespace RxSide

open Pipeline

variable (m : Nat)

/-- The worker has the packet, or it was freed. -/
def Settled (r : RxSide) : Prop := m ∈ r.received ∨ m ∈ r.freed

/-- The packet is on its way. -/
def Waiting (r : RxSide) : Prop := m ∈ r.rxRing.items ∨ m ∈ r.rxLcore.hands

/-- What moves a packet on the way in. -/
inductive Turn
  | push
  | recv

def turn (r : RxSide) : Turn := if m ∈ r.rxRing.items then .recv else .push

/-- The events that do it. -/
def Turn.Acts : Turn → Pipeline → Event → Prop
  | .push, _, .nicRecvPush _ => True
  | .recv, s, .recvBurst n k => s.workerLcore = .running ∧ 0 < n ∧ 0 < k
  | _, _, _ => False

/-- How many packets are before it, on its side of the ring. -/
def rank (r : RxSide) : Nat :=
  if m ∈ r.rxRing.items then r.rxRing.items.idxOf m else r.rxRing.capacity + r.rxLcore.hands.length

variable {m} {s : Pipeline} {e : Event} {r : RxSide}

theorem rank_of_mem (h : m ∈ r.rxRing.items) : r.rank m = r.rxRing.items.idxOf m := if_pos h

theorem rank_of_not_mem (h : m ∉ r.rxRing.items) :
    r.rank m = r.rxRing.capacity + r.rxLcore.hands.length := if_neg h

theorem turn_of_mem (h : m ∈ r.rxRing.items) : r.turn m = .recv := if_pos h

theorem turn_of_not_mem (h : m ∉ r.rxRing.items) : r.turn m = .push := if_neg h

/-- A packet does not get lost. -/
theorem waiting_of_move (h : s.rx.Waiting m) (hmove : s.RxMove e r) : r.Settled m ∨ r.Waiting m := by
  cases hmove with
  | same pkts _ => exact .inr h
  | arrive mbufs _ hidle =>
      rcases h with hring | hhands
      · exact .inr (.inl hring)
      · rw [show s.rx.rxLcore = .idle from hidle] at hhands
        exact absurd hhands List.not_mem_nil
  | @drop mbufs enqueued k _ hrx =>
      rcases h with hring | hhands
      · exact .inr (.inl hring)
      · rw [show s.rx.rxLcore = .pushing mbufs enqueued from hrx] at hhands
        exact .inl (.inr (List.mem_append_right _ hhands))
  | @push mbufs enqueued k lcore _ hrx _ hhands' =>
      have hitems := s.rxRing.pushBurst_items mbufs enqueued k
      have hmem : m ∈ s.rxRing.items ++ mbufs.drop enqueued := by
        rcases h with hring | hhands
        · exact List.mem_append_left _ hring
        · rw [show s.rx.rxLcore = .pushing mbufs enqueued from hrx] at hhands
          exact List.mem_append_right _ hhands
      rw [← hitems] at hmem
      rcases List.mem_append.mp hmem with hring | hrest
      · exact .inr (.inl hring)
      · refine .inr (.inr ?_)
        rw [hhands']
        exact hrest
  | @recv n k _ _ =>
      rcases h with hring | hhands
      · have hring' : m ∈ s.rxRing.items := hring
        rw [← s.rxRing.popBurst_items n k] at hring'
        rcases List.mem_append.mp hring' with hpopped | hleft
        · exact .inl (.inl (List.mem_append_right _ hpopped))
        · exact .inr (.inl hleft)
      · exact .inr (.inr hhands)

/-- What is settled stays settled. -/
theorem settled_of_move (h : s.rx.Settled m) (hmove : s.RxMove e r) : r.Settled m := by
  have hleft : ∀ {l l' : List Nat}, m ∈ l → m ∈ l ++ l' := fun h => List.mem_append_left _ h
  cases hmove with
  | same pkts _ => exact h.imp id hleft
  | arrive mbufs _ _ => exact h
  | drop _ _ => exact h.imp id hleft
  | push lcore _ _ _ _ => exact h
  | recv _ _ => exact h.imp hleft id

/-- A packet in the ring: it moves forward when the worker receives, and stays where it is otherwise. -/
theorem rank_of_mem_ring (hring : m ∈ s.rxRing.items) (hmove : s.RxMove e r) :
    r.Settled m ∨ r.rank m < s.rx.rank m ∨
      (r.rank m = s.rx.rank m ∧ r.turn m = s.rx.turn m ∧ ¬(s.rx.turn m).Acts s e) := by
  have hmem : m ∈ s.rx.rxRing.items := hring
  have hturn : s.rx.turn m = .recv := turn_of_mem hmem
  rw [hturn]
  cases hmove with
  | same pkts hstall =>
      refine .inr (.inr ⟨rfl, hturn, fun hacts => ?_⟩)
      cases e with
      | recvBurst n k => exact hstall hacts.1
      | _ => exact hacts
  | arrive mbufs he _ =>
      refine .inr (.inr ⟨?_, turn_of_mem hmem, ?_⟩)
      · rw [rank_of_mem hmem]
        exact rank_of_mem hmem
      · rw [he]
        exact id
  | drop he _ =>
      refine .inr (.inr ⟨?_, turn_of_mem hmem, ?_⟩)
      · rw [rank_of_mem hmem]
        exact rank_of_mem hmem
      · rw [he]
        exact id
  | @push mbufs enqueued k lcore he _ _ _ =>
      have hmem' : m ∈ (s.rxRing.pushBurst (mbufs.drop enqueued) k).2.items :=
        List.mem_append_left _ hring
      refine .inr (.inr ⟨?_, turn_of_mem hmem', ?_⟩)
      · rw [rank_of_mem hmem, rank_of_mem hmem']
        exact List.idxOf_append.trans (if_pos hring)
      · rw [he]
        exact id
  | @recv n k he hrunning =>
      have hitems := s.rxRing.popBurst_items n k
      by_cases hpopped : m ∈ (s.rxRing.popBurst n k).1
      · exact .inl (.inl (List.mem_append_right _ hpopped))
      have hmem' : m ∈ (s.rxRing.popBurst n k).2.items := by
        rw [← hitems] at hring
        exact (List.mem_append.mp hring).resolve_left hpopped
      have hindex : s.rxRing.items.idxOf m =
          (s.rxRing.popBurst n k).2.items.idxOf m + (s.rxRing.popBurst n k).1.length := by
        rw [← hitems, List.idxOf_append, if_neg hpopped]
      right
      rw [rank_of_mem hmem, rank_of_mem hmem', turn_of_mem hmem']
      change (s.rxRing.popBurst n k).2.items.idxOf m < s.rxRing.items.idxOf m ∨
        ((s.rxRing.popBurst n k).2.items.idxOf m = s.rxRing.items.idxOf m ∧ _)
      by_cases hnil : (s.rxRing.popBurst n k).1 = []
      · refine .inr ⟨by rw [hindex, hnil, List.length_nil, Nat.add_zero], rfl, ?_⟩
        rw [he]
        rintro ⟨-, hn, hk⟩
        exact Ring.popBurst_ne_nil (List.ne_nil_of_mem hring) hn hk hnil
      · left
        have hpos := List.length_pos_iff.mpr hnil
        omega

/-- A packet in the hands of the RX lcore: the next round of the loop settles it, puts it into the ring or
brings it nearer to that. -/
theorem rank_of_mem_hands (hring : m ∉ s.rxRing.items) (hhands : m ∈ s.rxLcore.hands)
    (hmove : s.RxMove e r) :
    r.Settled m ∨ r.rank m < s.rx.rank m ∨
      (r.rank m = s.rx.rank m ∧ r.turn m = s.rx.turn m ∧ ¬(s.rx.turn m).Acts s e) := by
  have hnot : m ∉ s.rx.rxRing.items := hring
  have hturn : s.rx.turn m = .push := turn_of_not_mem hnot
  rw [hturn, rank_of_not_mem hnot]
  cases hmove with
  | same pkts hstall =>
      refine .inr (.inr ⟨rank_of_not_mem hnot, hturn, fun hacts => ?_⟩)
      cases e with
      | nicRecvPush k =>
          rw [show s.rxLcore = .idle from hstall] at hhands
          exact List.not_mem_nil hhands
      | _ => exact hacts
  | arrive mbufs _ hidle =>
      rw [hidle] at hhands
      exact absurd hhands List.not_mem_nil
  | drop _ hrx =>
      rw [hrx] at hhands
      exact .inl (.inr (List.mem_append_right _ hhands))
  | @push mbufs enqueued k lcore he hrx hpos hhands' =>
      have hlcore : s.rx.rxLcore = .pushing mbufs enqueued := hrx
      have hle : s.rxRing.accepts (mbufs.drop enqueued) k ≤ (mbufs.drop enqueued).length := by
        rw [Ring.accepts]
        omega
      right
      left
      rw [hlcore, RxLcore.hands]
      by_cases hmem' : m ∈ (s.rxRing.pushBurst (mbufs.drop enqueued) k).2.items
      · rw [rank_of_mem hmem']
        have hlt := List.idxOf_lt_length_of_mem hmem'
        have hcap := (s.rxRing.pushBurst (mbufs.drop enqueued) k).2.items_le
        exact Nat.lt_of_lt_of_le hlt (Nat.le_trans hcap (Nat.le_add_right _ _))
      · rw [rank_of_not_mem hmem']
        refine Nat.add_lt_add_left ?_ s.rxRing.capacity
        rw [hhands', List.length_drop]
        rw [List.length_drop] at hle ⊢
        omega
  | @recv n k he _ =>
      have hnot' : m ∉ (s.rxRing.popBurst n k).2.items := fun h => hring (List.mem_of_mem_drop h)
      refine .inr (.inr ⟨rank_of_not_mem hnot', turn_of_not_mem hnot', ?_⟩)
      rw [he]
      exact id

end RxSide

namespace Pipeline

/-! ## Everything that the NIC delivers is received or freed -/

/-- Every packet that has arrived is settled or on its way. -/
def Accounted (s : Pipeline) : Prop := ∀ m ∈ s.arrived, s.rx.Settled m ∨ s.rx.Waiting m

theorem settled_or_waiting_step {m : Nat} (s : Pipeline) (e : Event)
    (h : s.rx.Settled m ∨ s.rx.Waiting m) : (s.step e).rx.Settled m ∨ (s.step e).rx.Waiting m := by
  rcases h with hsettled | hwaiting
  · exact .inl (RxSide.settled_of_move hsettled (s.step_rx e))
  · exact RxSide.waiting_of_move hwaiting (s.step_rx e)

/-- What a step adds to the packets that have arrived is in the hands of the RX lcore. -/
theorem RxMove.mem_arrived {s : Pipeline} {e : Event} {r : RxSide} (hmove : s.RxMove e r) {m : Nat}
    (h : m ∈ r.arrived) : m ∈ s.arrived ∨ r.Waiting m := by
  cases hmove with
  | arrive mbufs _ _ =>
      rcases List.mem_append.mp h with hold | hnew
      · exact .inl hold
      · exact .inr (.inr hnew)
  | same pkts _ => exact .inl h
  | drop _ _ => exact .inl h
  | push lcore _ _ _ _ => exact .inl h
  | recv _ _ => exact .inl h

theorem Accounted.step {s : Pipeline} (h : s.Accounted) (e : Event) : (s.step e).Accounted := by
  intro m hm
  rcases (s.step_rx e).mem_arrived hm with hold | hnew
  · exact settled_or_waiting_step s e (h m hold)
  · exact .inr hnew

/-- The RX lcore goes on with its loop, and the worker calls `recv_burst` again and again. -/
def FairRx (ringSize : Nat) (schedule : Nat → Event) : Prop :=
  ∀ turn : RxSide.Turn, Recurs step turn.Acts (start ringSize) schedule

/-- While the RX lcore goes on with its loop and the worker calls `recv_burst` again and again, every
packet that the NIC has delivered is received by the worker or freed. -/
theorem eventually_received {ringSize : Nat} {schedule : Nat → Event}
    (hfair : FairRx ringSize schedule) {n m : Nat} (hm : m ∈ (atTime ringSize schedule n).arrived) :
    ∃ n', n ≤ n' ∧ (m ∈ (atTime ringSize schedule n').received ∨
      m ∈ (atTime ringSize schedule n').freed) := by
  have haccounted : (atTime ringSize schedule n).Accounted :=
    trajectory_invariant (P := Accounted) (fun s e h => h.step e) (Nat.zero_le n)
      (fun m hm => absurd hm List.not_mem_nil)
  refine eventually_of_rank RxSide.Turn.Acts (fun s => s.rx.rank m) (fun s => s.rx.turn m)
    (P := fun s => s.rx.Settled m ∨ s.rx.Waiting m) (Q := fun s => s.rx.Settled m)
    (fun s e h => settled_or_waiting_step s e h) (fun s e h hshort => ?_) hfair n (haccounted m hm)
  -- where the packet is decides whose turn it is
  by_cases hring : m ∈ s.rxRing.items
  · exact RxSide.rank_of_mem_ring hring (s.step_rx e)
  · have hhands : m ∈ s.rxLcore.hands := (h.resolve_left hshort).resolve_left hring
    exact RxSide.rank_of_mem_hands hring hhands (s.step_rx e)

/-- The NIC delivers packet after packet, and the worker receives each of them. -/
def receivingSchedule (n : Nat) : Event :=
  match n % 3 with
  | 0 => .nicRecv 1
  | 1 => .nicRecvPush 1
  | _ => .recvBurst 1 1

theorem receivingSchedule_running (n : Nat) :
    (atTime 1 receivingSchedule n).workerLcore = .running := by
  induction n with
  | zero => rfl
  | succ n ih =>
      have htx : ((atTime 1 receivingSchedule n).step (receivingSchedule n)).tx =
          (atTime 1 receivingSchedule n).tx := by
        rw [receivingSchedule]
        split
        · exact nicRecv_tx _ 1
        · exact nicRecvPush_tx _ 1
        · exact recvBurst_tx _ 1 1
      exact (congrArg TxSide.workerLcore htx).trans ih

theorem receivingSchedule_fair : FairRx 1 receivingSchedule := by
  intro turn n
  cases turn with
  | push =>
      refine ⟨3 * n + 1, by omega, ?_⟩
      have hmod : (3 * n + 1) % 3 = 1 := by omega
      simp only [receivingSchedule, hmod, RxSide.Turn.Acts]
  | recv =>
      refine ⟨3 * n + 2, by omega, ?_⟩
      have hmod : (3 * n + 2) % 3 = 2 := by omega
      simp only [receivingSchedule, hmod, RxSide.Turn.Acts]
      exact ⟨receivingSchedule_running _, Nat.one_pos, Nat.one_pos⟩

theorem eventually_received_receiving :
    (atTime 1 receivingSchedule 4).arrived = [0, 1] ∧
      ∃ n', 4 ≤ n' ∧ (1 ∈ (atTime 1 receivingSchedule n').received ∨
        1 ∈ (atTime 1 receivingSchedule n').freed) := by
  have harrived : (atTime 1 receivingSchedule 4).arrived = [0, 1] := by decide
  exact ⟨harrived, eventually_received receivingSchedule_fair (by rw [harrived]; decide)⟩

end Pipeline

end VioletGateway
