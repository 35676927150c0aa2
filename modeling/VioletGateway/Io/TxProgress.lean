import VioletGateway.Io.Pipeline
import VioletGateway.Support.Progress

/-!
# Progress towards the NIC in pipeline mode

`Pipeline.conserves` says where packets are; this module says that they leave. Runs are infinite here,
and fair: the worker and the TX lcore go on with their loops, and a ring that could move a packet does so
again and again. Then everything that the worker passes to `send_burst` is offered to the NIC, and every
call of `send_burst` returns (`Pipeline.eventually_offered`).

The fairness of the TX lcore cannot be dispensed with. If it is not launched, then `send_burst` fills the
ring and never returns (`Pipeline.blocks_without_txLcore`).
-/

set_option autoImplicit false

namespace VioletGateway

open Support

namespace Ring

variable {α : Type*} {r : Ring α} {eles : List α} {size k : Nat}

/-- A ring that takes nothing stays as it is. -/
theorem pushBurst_of_accepts (h : r.accepts eles k = 0) : (r.pushBurst eles k).2 = r := by
  simp only [pushBurst, h, List.take_zero, List.append_nil]

/-- A ring that gives nothing stays as it is. -/
theorem popBurst_of_nil (h : (r.popBurst size k).1 = []) : (r.popBurst size k).2 = r := by
  have hitems := r.popBurst_items size k
  rw [h, List.nil_append] at hitems
  cases r
  simpa only [popBurst, Ring.mk.injEq, true_and] using hitems

theorem length_pushBurst (r : Ring α) (eles : List α) (k : Nat) :
    (r.pushBurst eles k).2.items.length = r.items.length + r.accepts eles k := by
  have hle : r.accepts eles k ≤ eles.length := by
    rw [accepts]
    omega
  rw [pushBurst, List.length_append, List.length_take, Nat.min_eq_left hle]

/-- A ring with room takes something. -/
theorem accepts_pos (hroom : r.items.length < r.capacity) (heles : eles ≠ []) (hk : 0 < k) :
    0 < r.accepts eles k := by
  have hlen : 0 < eles.length := List.length_pos_iff.mpr heles
  rw [accepts]
  omega

/-- A ring that is not empty gives something. -/
theorem popBurst_ne_nil (hitems : r.items ≠ []) (hsize : 0 < size) (hk : 0 < k) :
    (r.popBurst size k).1 ≠ [] := by
  have hlen : 0 < r.items.length := List.length_pos_iff.mpr hitems
  apply List.ne_nil_of_length_pos
  rw [popBurst, List.length_take]
  omega

end Ring

/-! ## The way out -/

/-- What lies between the worker and the NIC. -/
structure TxSide where
  workerLcore : WorkerLcore
  txRing : Ring Nat
  txLcore : TxLcore
  passed : List Nat
  offered : List Nat

def Pipeline.tx (s : Pipeline) : TxSide where
  workerLcore := s.workerLcore
  txRing := s.txRing
  txLcore := s.txLcore
  passed := s.passed
  offered := s.offered

namespace TxSide

open Pipeline

/-- The event finds its party elsewhere, or the ring moves nothing. -/
def Stalls (t : TxSide) : Event → Prop
  | .sendBurstPush k => ∀ pkts sent, t.workerLcore = .sending pkts sent →
      t.txRing.accepts (pkts.drop sent) k = 0
  | .nicSend k => t.txLcore = .idle → (t.txRing.popBurst Config.ioTxBurst k).1 = []
  | .nicSendBurst _ => t.txLcore = .idle
  | _ => True

/-- All that a step can do on the way out. -/
inductive Move (t : TxSide) (e : Event) : TxSide → Prop
  | same : t.Stalls e → Move t e t
  | pass {pkts : List Nat} : e = .sendBurst pkts → t.workerLcore = .running → pkts ≠ [] →
      Move t e { t with workerLcore := .sending pkts 0, passed := t.passed ++ pkts }
  | push {pkts : List Nat} {sent k : Nat} : e = .sendBurstPush k →
      t.workerLcore = .sending pkts sent → 0 < t.txRing.accepts (pkts.drop sent) k →
      sent + t.txRing.accepts (pkts.drop sent) k < pkts.length →
      Move t e
        { t with
          txRing := (t.txRing.pushBurst (pkts.drop sent) k).2
          workerLcore := .sending pkts (sent + t.txRing.accepts (pkts.drop sent) k) }
  | pushLast {pkts : List Nat} {sent k : Nat} : e = .sendBurstPush k →
      t.workerLcore = .sending pkts sent → 0 < t.txRing.accepts (pkts.drop sent) k →
      Move t e
        { t with
          txRing := (t.txRing.pushBurst (pkts.drop sent) k).2
          workerLcore := .running }
  | pop {k : Nat} : e = .nicSend k → t.txLcore = .idle →
      (t.txRing.popBurst Config.ioTxBurst k).1 ≠ [] →
      Move t e
        { t with
          txRing := (t.txRing.popBurst Config.ioTxBurst k).2
          txLcore := .holding (t.txRing.popBurst Config.ioTxBurst k).1 }
  | offer {mbufs : List Nat} {n : Nat} : e = .nicSendBurst n → t.txLcore = .holding mbufs →
      Move t e { t with txLcore := .idle, offered := t.offered ++ mbufs }

end TxSide

namespace Pipeline

variable {s : Pipeline}

theorem sendBurst_tx (s : Pipeline) (pkts : List Nat) :
    s.tx.Move (.sendBurst pkts) (s.sendBurst pkts).tx := by
  rw [Pipeline.sendBurst]
  split
  · exact .same trivial
  · rename_i hw
    dsimp only
    split_ifs with hheld hnil
    · obtain rfl := List.length_eq_zero_iff.mp hnil
      have heq : Pipeline.tx { s with held := s.held.diff [], passed := s.passed ++ [] } = s.tx := by
        simp [Pipeline.tx]
      rw [heq]
      exact .same trivial
    · exact .pass rfl hw (fun h => hnil (congrArg List.length h))
    · exact .same trivial

theorem sendBurstPush_tx (s : Pipeline) (k : Nat) :
    s.tx.Move (.sendBurstPush k) (s.sendBurstPush k).tx := by
  rw [Pipeline.sendBurstPush]
  split
  · rename_i hw
    refine .same fun pkts sent hsending => ?_
    exact WorkerLcore.noConfusion (hw.symm.trans hsending)
  · rename_i pkts sent hw
    have hen : (s.txRing.pushBurst (pkts.drop sent) k).1 = s.txRing.accepts (pkts.drop sent) k := rfl
    dsimp only
    rw [hen]
    split_ifs with hfull hmore
    · -- the ring is full
      rw [Ring.pushBurst_of_accepts hfull]
      refine .same fun pkts' sent' hsending => ?_
      obtain ⟨rfl, rfl⟩ := WorkerLcore.sending.inj (hw.symm.trans hsending)
      exact hfull
    · exact .push rfl hw (Nat.pos_of_ne_zero hfull) hmore
    · exact .pushLast rfl hw (Nat.pos_of_ne_zero hfull)

theorem nicSend_tx (s : Pipeline) (k : Nat) : s.tx.Move (.nicSend k) (s.nicSend k).tx := by
  rw [Pipeline.nicSend]
  split
  · rename_i mbufs htx
    refine .same fun hidle => ?_
    exact TxLcore.noConfusion (htx.symm.trans hidle)
  · rename_i htx
    dsimp only
    split_ifs with hlen
    · have hnil := List.length_eq_zero_iff.mp hlen
      rw [Ring.popBurst_of_nil hnil]
      exact .same fun _ => hnil
    · exact .pop rfl htx (fun h => hlen (congrArg List.length h))

theorem nicSendBurst_tx (s : Pipeline) (n : Nat) :
    s.tx.Move (.nicSendBurst n) (s.nicSendBurst n).tx := by
  rw [Pipeline.nicSendBurst]
  split
  · rename_i htx
    exact .same htx
  · rename_i mbufs htx
    exact .offer rfl htx

theorem nicRecv_tx (s : Pipeline) (n : Nat) : (s.nicRecv n).tx = s.tx := by
  rw [Pipeline.nicRecv]
  split
  · rfl
  · dsimp only
    split_ifs <;> rfl

theorem nicRecvPush_tx (s : Pipeline) (k : Nat) : (s.nicRecvPush k).tx = s.tx := by
  rw [Pipeline.nicRecvPush]
  split
  · rfl
  · dsimp only
    split_ifs <;> rfl

theorem recvBurst_tx (s : Pipeline) (n k : Nat) : (s.recvBurst n k).tx = s.tx := by
  rw [Pipeline.recvBurst]
  split <;> rfl

theorem alloc_tx (s : Pipeline) : s.alloc.tx = s.tx := by
  rw [Pipeline.alloc]
  split <;> rfl

theorem free_tx (s : Pipeline) (m : Nat) : (s.free m).tx = s.tx := by
  rw [Pipeline.free]
  split
  · rfl
  · split_ifs <;> rfl

/-- What a step does on the way out. -/
theorem step_tx (s : Pipeline) (e : Event) : s.tx.Move e (s.step e).tx := by
  cases e with
  | nicRecv n => exact (s.nicRecv_tx n).symm ▸ .same trivial
  | nicRecvPush k => exact (s.nicRecvPush_tx k).symm ▸ .same trivial
  | recvBurst n k => exact (s.recvBurst_tx n k).symm ▸ .same trivial
  | alloc => exact s.alloc_tx.symm ▸ .same trivial
  | free m => exact (s.free_tx m).symm ▸ .same trivial
  | sendBurst pkts => exact s.sendBurst_tx pkts
  | sendBurstPush k => exact s.sendBurstPush_tx k
  | nicSend k => exact s.nicSend_tx k
  | nicSendBurst n => exact s.nicSendBurst_tx n

end Pipeline

/-! ## Ranks and turns -/

namespace TxSide

open Pipeline

/-- The invariant: a party that is inside a loop has a packet in hand, and the ring has room for one. -/
structure Engaged (t : TxSide) : Prop where
  room : 0 < t.txRing.capacity
  holding : ∀ mbufs, t.txLcore = .holding mbufs → mbufs ≠ []
  sending : ∀ pkts sent, t.workerLcore = .sending pkts sent → sent < pkts.length

variable {t t' : TxSide} {e : Event}

theorem Engaged.move (h : t.Engaged) (hmove : t.Move e t') : t'.Engaged := by
  cases hmove with
  | same _ => exact h
  | pass _ _ hne =>
      refine ⟨h.room, h.holding, fun pkts sent heq => ?_⟩
      obtain ⟨rfl, rfl⟩ := WorkerLcore.sending.inj heq
      exact List.length_pos_iff.mpr hne
  | push _ _ _ hmore =>
      refine ⟨h.room, h.holding, fun pkts sent heq => ?_⟩
      obtain ⟨rfl, rfl⟩ := WorkerLcore.sending.inj heq
      exact hmore
  | pushLast _ _ _ => exact ⟨h.room, h.holding, fun pkts sent heq => WorkerLcore.noConfusion heq⟩
  | pop _ _ hne =>
      refine ⟨h.room, fun mbufs heq => ?_, h.sending⟩
      obtain rfl := TxLcore.holding.inj heq
      exact hne
  | offer _ _ => exact ⟨h.room, fun mbufs heq => TxLcore.noConfusion heq, h.sending⟩

/-- What moves the packets on the way out. -/
inductive Turn
  | push
  | pop
  | offer

/-- The farthest packets come first. -/
def turn (t : TxSide) : Turn :=
  match t.txLcore with
  | .holding _ => .offer
  | .idle => if t.txRing.items = [] then .push else .pop

/-- The events that do it. A ring may refuse, but not if it is asked to move at least one packet and
can. -/
def Turn.Acts : Turn → Event → Prop
  | .push, .sendBurstPush k => 0 < k
  | .pop, .nicSend k => 0 < k
  | .offer, .nicSendBurst _ => True
  | _, _ => False

/-- How far the first `n` packets are from the NIC: they count once for each stage before them. -/
def rank (n : Nat) (t : TxSide) : Nat :=
  (n - t.offered.length) + (n - (t.offered.length + t.txLcore.hands.length)) +
    (n - (t.offered.length + t.txLcore.hands.length + t.txRing.items.length))

/-- It is the turn of the TX lcore to offer what it holds. -/
theorem turn_of_holding {mbufs : List Nat} (h : t.txLcore = .holding mbufs) : t.turn = .offer := by
  rw [turn, h]

theorem turn_of_idle (h : t.txLcore = .idle) :
    t.turn = if t.txRing.items = [] then .push else .pop := by
  rw [turn, h]

/-- When nothing is on its way, the worker has packets to send. -/
theorem unsent_ne_nil (hout : t.passed =
      t.offered ++ t.txLcore.hands ++ t.txRing.items ++ t.workerLcore.unsent)
    {n : Nat} (hn : n ≤ t.passed.length) (hshort : t.offered.length < n) (hidle : t.txLcore = .idle)
    (hring : t.txRing.items = []) : t.workerLcore.unsent ≠ [] := by
  intro hnil
  rw [hout, hidle, hring, hnil] at hn
  simp only [TxLcore.hands, List.append_nil] at hn
  omega

/-- Whose turn it is does not stall. -/
theorem not_acts_of_stalls (h : t.Engaged) (hout : t.passed =
      t.offered ++ t.txLcore.hands ++ t.txRing.items ++ t.workerLcore.unsent)
    {n : Nat} (hn : n ≤ t.passed.length) (hshort : t.offered.length < n) (hstall : t.Stalls e) :
    ¬t.turn.Acts e := by
  intro hacts
  cases htx : t.txLcore with
  | holding mbufs =>
      rw [turn_of_holding htx] at hacts
      cases e with
      | nicSendBurst k => exact TxLcore.noConfusion (htx.symm.trans hstall)
      | _ => exact hacts
  | idle =>
      rw [turn_of_idle htx] at hacts
      split_ifs at hacts with hring
      · cases e with
        | sendBurstPush k =>
            have hunsent := unsent_ne_nil hout hn hshort htx hring
            cases hw : t.workerLcore with
            | running => exact hunsent (by rw [hw, WorkerLcore.unsent])
            | sending pkts sent =>
                rw [hw, WorkerLcore.unsent] at hunsent
                have hroom : t.txRing.items.length < t.txRing.capacity := by
                  rw [hring]
                  exact h.room
                have hpos := Ring.accepts_pos hroom hunsent hacts
                exact absurd (hstall pkts sent hw) (Nat.ne_of_gt hpos)
        | _ => exact hacts
      · cases e with
        | nicSend k => exact Ring.popBurst_ne_nil hring (by decide) hacts (hstall htx)
        | _ => exact hacts

/-- The worker puts packets into the ring. -/
theorem rank_of_push {eles : List Nat} {k : Nat} (w : WorkerLcore) (n : Nat)
    (hpos : 0 < t.txRing.accepts eles k) (hshort : t.offered.length < n)
    (he : e = .sendBurstPush k) :
    let t' : TxSide := { t with txRing := (t.txRing.pushBurst eles k).2, workerLcore := w }
    t'.rank n < t.rank n ∨ (t'.rank n = t.rank n ∧ t'.turn = t.turn ∧ ¬t.turn.Acts e) := by
  intro t'
  have hlen : t'.txRing.items.length = t.txRing.items.length + t.txRing.accepts eles k :=
    t.txRing.length_pushBurst eles k
  have hne : t'.txRing.items ≠ [] := List.ne_nil_of_length_pos (by omega)
  have hrank : t'.rank n = (n - t.offered.length) + (n - (t.offered.length + t.txLcore.hands.length)) +
      (n - (t.offered.length + t.txLcore.hands.length +
        (t.txRing.items.length + t.txRing.accepts eles k))) := by
    rw [rank, hlen]
  have hle : t'.rank n ≤ t.rank n := by
    rw [hrank, rank]
    omega
  cases htx : t.txLcore with
  | holding mbufs =>
      have hturn' : t'.turn = .offer := turn_of_holding htx
      rcases Nat.lt_or_eq_of_le hle with hlt | heq
      · exact .inl hlt
      · refine .inr ⟨heq, hturn'.trans (turn_of_holding htx).symm, ?_⟩
        rw [turn_of_holding htx, he]
        exact id
  | idle =>
      have hturn' : t'.turn = .pop := (turn_of_idle (t := t') htx).trans (if_neg hne)
      by_cases hring : t.txRing.items = []
      · -- nothing was between the worker and the NIC
        left
        rw [hrank, rank, htx, hring]
        simp only [TxLcore.hands, List.length_nil]
        omega
      · have hturn : t.turn = .pop := (turn_of_idle htx).trans (if_neg hring)
        rcases Nat.lt_or_eq_of_le hle with hlt | heq
        · exact .inl hlt
        · refine .inr ⟨heq, hturn'.trans hturn.symm, ?_⟩
          rw [hturn, he]
          exact id

/-- Every step takes the first `n` packets nearer to the NIC, or leaves the turn to whom it belongs. -/
theorem rank_of_move (h : t.Engaged) (hout : t.passed =
      t.offered ++ t.txLcore.hands ++ t.txRing.items ++ t.workerLcore.unsent)
    {n : Nat} (hn : n ≤ t.passed.length) (hshort : t.offered.length < n) (hmove : t.Move e t') :
    t'.rank n < t.rank n ∨ (t'.rank n = t.rank n ∧ t'.turn = t.turn ∧ ¬t.turn.Acts e) := by
  cases hmove with
  | same hstall => exact .inr ⟨rfl, rfl, not_acts_of_stalls h hout hn hshort hstall⟩
  | pass he _ _ =>
      refine .inr ⟨rfl, rfl, ?_⟩
      rw [he]
      cases t.turn <;> exact id
  | push he _ hpos _ => exact rank_of_push _ n hpos hshort he
  | pushLast he _ hpos => exact rank_of_push _ n hpos hshort he
  | @pop k he hidle hne =>
      left
      have hitems := congrArg List.length (t.txRing.popBurst_items Config.ioTxBurst k)
      rw [List.length_append] at hitems
      have hpos := List.length_pos_iff.mpr hne
      simp only [rank, hidle, TxLcore.hands, List.length_nil]
      omega
  | offer he hholding =>
      left
      have hpos := List.length_pos_iff.mpr (h.holding _ hholding)
      simp only [rank, hholding, TxLcore.hands, List.length_nil, List.length_append]
      omega

/-- What has been passed to `send_burst` stays passed. -/
theorem Move.passed_grows (hmove : t.Move e t') : t.passed <+: t'.passed := by
  cases hmove with
  | pass _ _ _ => exact List.prefix_append _ _
  | _ => exact List.prefix_refl _

/-- A worker inside `send_burst` passes nothing else. -/
theorem Move.passed_of_sending (hmove : t.Move e t') (hne : t.workerLcore ≠ .running) :
    t'.passed = t.passed := by
  cases hmove with
  | pass _ hrunning _ => exact absurd hrunning hne
  | _ => rfl

end TxSide

namespace Pipeline

/-! ## Everything passed to `send_burst` is offered to the NIC -/

/-- What holds of every state on the way. -/
structure Underway (n : Nat) (s : Pipeline) : Prop where
  inv : s.Inv
  engaged : s.tx.Engaged
  passed : n ≤ s.passed.length

theorem Underway.step {n : Nat} {s : Pipeline} (h : s.Underway n) (e : Event) :
    (s.step e).Underway n where
  inv := step_inv s e h.inv
  engaged := h.engaged.move (s.step_tx e)
  passed := Nat.le_trans h.passed (s.step_tx e).passed_grows.length_le

theorem start_underway {ringSize : Nat} (hring : 0 < ringSize) : (start ringSize).Underway 0 where
  inv := start_inv ringSize
  engaged := ⟨hring, fun _ h => TxLcore.noConfusion h, fun _ _ h => WorkerLcore.noConfusion h⟩
  passed := Nat.zero_le _

section Schedule

variable {ringSize : Nat} {schedule : Nat → Event}

/-- The pipeline after the first `n` events. -/
abbrev atTime (ringSize : Nat) (schedule : Nat → Event) (n : Nat) : Pipeline :=
  trajectory step (start ringSize) schedule n

/-- The worker and the TX lcore go on with their loops. -/
def FairTx (ringSize : Nat) (schedule : Nat → Event) : Prop :=
  ∀ turn : TxSide.Turn, Recurs step (fun _ e => turn.Acts e) (start ringSize) schedule

variable (schedule) in
theorem atTime_underway (hring : 0 < ringSize) (n : Nat) :
    (atTime ringSize schedule n).Underway (atTime ringSize schedule n).passed.length := by
  have hzero : (atTime ringSize schedule n).Underway 0 :=
    trajectory_invariant (P := Underway 0) (fun s e h => h.step e) (Nat.zero_le n)
      (start_underway hring)
  exact ⟨hzero.inv, hzero.engaged, Nat.le_refl _⟩

theorem atTime_passed_grows {n n' : Nat} (hle : n ≤ n') :
    (atTime ringSize schedule n).passed <+: (atTime ringSize schedule n').passed := by
  induction n', hle using Nat.le_induction with
  | base => exact List.prefix_refl _
  | succ n' _ ih => exact ih.trans (step_tx _ _).passed_grows

/-- The number of offered packets catches up with the number of passed ones. -/
theorem eventually_offered_length (hring : 0 < ringSize) (hfair : FairTx ringSize schedule)
    (n : Nat) :
    ∃ n', n ≤ n' ∧
      (atTime ringSize schedule n).passed.length ≤ (atTime ringSize schedule n').offered.length := by
  generalize hlen : (atTime ringSize schedule n).passed.length = len
  have hstart : (atTime ringSize schedule n).Underway len := hlen ▸ atTime_underway schedule hring n
  refine eventually_of_rank (fun turn _ e => TxSide.Turn.Acts turn e) (fun s => s.tx.rank len)
    (fun s => s.tx.turn) (P := Underway len) (Q := fun s => len ≤ s.offered.length)
    (fun s e h => h.step e) (fun s e h hshort => ?_) hfair n hstart
  exact .inr (TxSide.rank_of_move h.engaged h.inv.outgoing h.passed (Nat.not_le.mp hshort)
    (s.step_tx e))

/-- Let the worker and the TX lcore go on with their loops. Then every packet that is passed to
`send_burst` is offered to the NIC, and every call of `send_burst` returns. -/
theorem eventually_offered (hring : 0 < ringSize) (hfair : FairTx ringSize schedule) (n : Nat) :
    (∀ m ∈ (atTime ringSize schedule n).passed,
      ∃ n', n ≤ n' ∧ m ∈ (atTime ringSize schedule n').offered) ∧
    ∃ n', n ≤ n' ∧ (atTime ringSize schedule n').workerLcore = .running := by
  obtain ⟨n', hle, hlen⟩ := eventually_offered_length hring hfair n
  have hout := (atTime_underway schedule hring n').inv.outgoing
  rw [outgoing, List.append_assoc, List.append_assoc] at hout
  constructor
  · intro m hm
    have hpre : (atTime ringSize schedule n).passed <+: (atTime ringSize schedule n').offered :=
      List.prefix_of_prefix_length_le (atTime_passed_grows hle)
        ⟨_, hout.symm⟩ hlen
    exact ⟨n', hle, hpre.subset hm⟩
  · by_contra hnever
    push Not at hnever
    -- the worker passes nothing else, so all that it has passed is offered
    have hsame : ∀ d, (atTime ringSize schedule (n + d)).passed =
        (atTime ringSize schedule n).passed := by
      intro d
      induction d with
      | zero => rfl
      | succ d ih =>
          rw [← ih]
          exact (step_tx _ _).passed_of_sending (hnever (n + d) (Nat.le_add_right n d))
    obtain ⟨d, rfl⟩ := Nat.exists_eq_add_of_le hle
    have hunsent : (atTime ringSize schedule (n + d)).workerLcore.unsent = [] := by
      have hcount := congrArg List.length hout
      rw [hsame d, List.length_append, List.length_append, List.length_append] at hcount
      apply List.eq_nil_of_length_eq_zero
      omega
    cases hw : (atTime ringSize schedule (n + d)).workerLcore with
    | running => exact hnever (n + d) hle hw
    | sending pkts sent =>
        have hlt := (atTime_underway schedule hring (n + d)).engaged.sending pkts sent hw
        rw [hw, WorkerLcore.unsent, List.drop_eq_nil_iff] at hunsent
        omega

end Schedule

/-- The worker allocates packet after packet and sends each of them. -/
def sendingSchedule (n : Nat) : Event :=
  match n % 5 with
  | 0 => .alloc
  | 1 => .sendBurst [n / 5]
  | 2 => .sendBurstPush 1
  | 3 => .nicSend 1
  | _ => .nicSendBurst 1

theorem sendingSchedule_fair : FairTx 1 sendingSchedule := by
  intro turn n
  cases turn with
  | push =>
      refine ⟨5 * n + 2, by omega, ?_⟩
      have hmod : (5 * n + 2) % 5 = 2 := by omega
      simp only [sendingSchedule, hmod, TxSide.Turn.Acts, Nat.one_pos]
  | pop =>
      refine ⟨5 * n + 3, by omega, ?_⟩
      have hmod : (5 * n + 3) % 5 = 3 := by omega
      simp only [sendingSchedule, hmod, TxSide.Turn.Acts, Nat.one_pos]
  | offer =>
      refine ⟨5 * n + 4, by omega, ?_⟩
      have hmod : (5 * n + 4) % 5 = 4 := by omega
      simp only [sendingSchedule, hmod, TxSide.Turn.Acts]

theorem eventually_offered_sending :
    (atTime 1 sendingSchedule 7).passed = [0, 1] ∧
      (∃ n', 7 ≤ n' ∧ 1 ∈ (atTime 1 sendingSchedule n').offered) ∧
      ∃ n', 7 ≤ n' ∧ (atTime 1 sendingSchedule n').workerLcore = .running := by
  have hpassed : (atTime 1 sendingSchedule 7).passed = [0, 1] := by decide
  obtain ⟨hall, hreturns⟩ := eventually_offered Nat.one_pos sendingSchedule_fair 7
  exact ⟨hpassed, hall 1 (by rw [hpassed]; decide), hreturns⟩

/-! ## Without the TX lcore -/

section Blocked

variable {ringSize : Nat} {events later : List Event}

/-- The TX lcore has done nothing. -/
structure TxUnused (ringSize : Nat) (t : TxSide) : Prop where
  capacity : t.txRing.capacity = ringSize
  idle : t.txLcore = .idle
  offered : t.offered = []

theorem TxUnused.move {t t' : TxSide} {e : Event} (h : TxUnused ringSize t) (hmove : t.Move e t')
    (hnone : ∀ k, e ≠ .nicSend k) : TxUnused ringSize t' := by
  cases hmove with
  | same _ => exact h
  | pass _ _ _ => exact ⟨h.capacity, h.idle, h.offered⟩
  | push _ _ _ _ => exact ⟨h.capacity, h.idle, h.offered⟩
  | pushLast _ _ _ => exact ⟨h.capacity, h.idle, h.offered⟩
  | pop he _ _ => exact absurd he (hnone _)
  | offer _ hholding => exact TxLcore.noConfusion (h.idle.symm.trans hholding)

/-- All packets but those that fit into the ring are still in the array. -/
theorem TxUnused.not_running {s : Pipeline} (h : TxUnused ringSize s.tx) (hinv : s.Inv)
    (hmore : ringSize < s.passed.length) : s.workerLcore ≠ .running := by
  intro hrunning
  have hidle : s.txLcore = .idle := h.idle
  have hoffered : s.offered = [] := h.offered
  have hcapacity : s.txRing.capacity = ringSize := h.capacity
  have hle := s.txRing.items_le
  rw [hinv.outgoing, outgoing, hoffered, hidle, hrunning] at hmore
  simp only [TxLcore.hands, WorkerLcore.unsent, List.append_nil, List.nil_append] at hmore
  omega

/-- Let the TX lcore not be launched. Once the worker has passed more packets to `send_burst` than fit
into the ring, it stays inside the call for ever, whatever happens then: it passes nothing more, and
nothing is ever offered to the NIC. -/
theorem blocks_without_txLcore (hnone : ∀ k, Event.nicSend k ∉ events ++ later)
    (hmore : ringSize < (after ringSize events).passed.length) :
    (after ringSize (events ++ later)).workerLcore ≠ .running ∧
      (after ringSize (events ++ later)).passed = (after ringSize events).passed ∧
      (after ringSize (events ++ later)).offered = [] := by
  have hunused : ∀ (es : List Event), (∀ e ∈ es, ∀ k, e ≠ .nicSend k) →
      TxUnused ringSize (after ringSize es).tx := by
    intro es hes
    exact run_invariant_of_mem (P := fun s : Pipeline => TxUnused ringSize s.tx)
      (fun s e he h => h.move (s.step_tx e) (hes e he)) ⟨rfl, rfl, rfl⟩
  have hne : ∀ e ∈ events ++ later, ∀ k, e ≠ .nicSend k := by
    intro e he k heq
    exact hnone k (heq ▸ he)
  have hinv : ∀ es, (after ringSize es).Inv := fun es => run_invariant step_inv (start_inv ringSize) es
  -- the induction is on the events that come later
  induction later using List.reverseRecOn with
  | nil =>
      rw [List.append_nil] at hne ⊢
      have h := hunused events hne
      exact ⟨h.not_running (hinv events) hmore, rfl, h.offered⟩
  | append_singleton later e ih =>
      have hsub : ∀ x ∈ events ++ later, x ∈ events ++ (later ++ [e]) := by
        intro x hx
        rw [← List.append_assoc]
        exact List.mem_append_left _ hx
      obtain ⟨hrunning, hpassed, -⟩ := ih (fun k hk => hnone k (hsub _ hk))
        (fun x hx => hne x (hsub x hx))
      have hlast : after ringSize (events ++ (later ++ [e])) =
          (after ringSize (events ++ later)).step e := by
        rw [after, ← List.append_assoc, run_concat]
        rfl
      have hsame : (after ringSize (events ++ (later ++ [e]))).passed =
          (after ringSize events).passed := by
        rw [hlast, ← hpassed]
        exact (step_tx _ e).passed_of_sending hrunning
      have h := hunused _ hne
      refine ⟨h.not_running (hinv _) ?_, hsame, h.offered⟩
      rw [hsame]
      exact hmore

end Blocked

/-- A ring of one slot, and two packets. -/
theorem blocks_without_txLcore_two :
    (after 1 ([.alloc, .alloc, .sendBurst [0, 1], .sendBurstPush 2] ++
      [.sendBurstPush 1, .nicSendBurst 1])).workerLcore ≠ .running :=
  (blocks_without_txLcore (by simp) (by decide)).1

end Pipeline

end VioletGateway
