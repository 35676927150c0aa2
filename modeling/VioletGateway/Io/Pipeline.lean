import VioletGateway.Config
import VioletGateway.Support.Run

/-!
# The datapath in pipeline mode

In pipeline mode three lcores share the work: one moves packets from the NIC into `rx_ring`
(`nic_recv`), the worker takes them from there and puts packets into `tx_ring` (`recv_burst`,
`send_burst`), and one moves these to the NIC (`nic_send`). Here the three parties take their steps in
any order, one call of a ring or of the NIC at a time.

The worker is arbitrary: it may allocate packets of its own, and it frees or sends each packet that it
holds at most once. `Pipeline.conserves` says that no packet is lost, duplicated or reordered.
-/

set_option autoImplicit false

namespace VioletGateway

open Support

/-! ## Rings -/

/-- `Ring<T>`: a bounded queue. -/
structure Ring (α : Type*) where
  capacity : Nat
  items : List α
  items_le : items.length ≤ capacity

namespace Ring

variable {α : Type*}

/-- An empty ring. -/
def new (capacity : Nat) : Ring α := ⟨capacity, [], Nat.zero_le _⟩

/-- How many of the elements `eles` a call of `push_burst` takes: as many as the ring says, if that
many are offered and there is room for them. -/
def accepts (r : Ring α) (eles : List α) (k : Nat) : Nat :=
  min k (min eles.length (r.capacity - r.items.length))

/-- `push_burst`: a first part of the elements is taken, at the end of the queue. -/
def pushBurst (r : Ring α) (eles : List α) (k : Nat) : Nat × Ring α :=
  (r.accepts eles k,
    { r with
      items := r.items ++ eles.take (r.accepts eles k)
      items_le := by
        have hle := r.items_le
        rw [List.length_append, List.length_take]
        rw [accepts]
        omega })

/-- `pop_burst`: at most `size` elements from the front of the queue. -/
def popBurst (r : Ring α) (size k : Nat) : List α × Ring α :=
  (r.items.take (min k size),
    { r with
      items := r.items.drop (min k size)
      items_le := by
        have hle := r.items_le
        rw [List.length_drop]
        omega })

/-- A round of a loop that pushes an array: the ring with what is left of the array behind it does not
change. -/
theorem pushBurst_items (r : Ring α) (eles : List α) (done k : Nat) :
    (r.pushBurst (eles.drop done) k).2.items ++
        eles.drop (done + (r.pushBurst (eles.drop done) k).1) =
      r.items ++ eles.drop done := by
  rw [← List.drop_drop]
  exact (List.append_assoc _ _ _).trans
    (congrArg (r.items ++ ·) (List.take_append_drop (r.accepts (eles.drop done) k) _))

theorem popBurst_items (r : Ring α) (size k : Nat) :
    (r.popBurst size k).1 ++ (r.popBurst size k).2.items = r.items := List.take_append_drop _ _

end Ring

/-! ## The three parties -/

/-- Where the RX lcore is in `nic_recv`. -/
inductive RxLcore
  | idle
  /-- in the loop: the array `mbufs`, and the count `enqueued` -/
  | pushing (mbufs : List Nat) (enqueued : Nat)

/-- The packets that the RX lcore has in hand. -/
def RxLcore.hands : RxLcore → List Nat
  | .idle => []
  | .pushing mbufs enqueued => mbufs.drop enqueued

/-- Whether the worker is in `send_burst`. -/
inductive WorkerLcore
  | running
  /-- in the loop: the array `pkts`, and the count `sent` -/
  | sending (pkts : List Nat) (sent : Nat)

/-- The packets passed to `send_burst` that are not in the ring yet. -/
def WorkerLcore.unsent : WorkerLcore → List Nat
  | .running => []
  | .sending pkts sent => pkts.drop sent

/-- Where the TX lcore is in `nic_send`. -/
inductive TxLcore
  | idle
  /-- between `pop_burst` and `tx_burst` -/
  | holding (mbufs : List Nat)

/-- The packets that the TX lcore has in hand. -/
def TxLcore.hands : TxLcore → List Nat
  | .idle => []
  | .holding mbufs => mbufs

/-- The lcores, the rings between them, and the history. Packets are numbered in the order in which
they came into being. -/
structure Pipeline where
  rxLcore : RxLcore
  rxRing : Ring Nat
  workerLcore : WorkerLcore
  /-- what the worker holds outside of `send_burst` -/
  held : List Nat
  txRing : Ring Nat
  txLcore : TxLcore
  next : Nat
  /-- delivered by the NIC -/
  arrived : List Nat
  /-- returned by `recv_burst` -/
  received : List Nat
  /-- passed to `send_burst` -/
  passed : List Nat
  /-- passed to `tx_burst` -/
  offered : List Nat
  /-- taken by the NIC -/
  accepted : List Nat
  freed : List Nat

namespace Pipeline

/-- The pipeline before its first packet. -/
def start (ringSize : Nat) : Pipeline where
  rxLcore := .idle
  rxRing := .new ringSize
  workerLcore := .running
  held := []
  txRing := .new ringSize
  txLcore := .idle
  next := 0
  arrived := []
  received := []
  passed := []
  offered := []
  accepted := []
  freed := []

/-- `free_burst`. -/
def freeBurst (s : Pipeline) (pkts : List Nat) : Pipeline := { s with freed := s.freed ++ pkts }

/-- `nic_recv`, the call of `rx_burst`: the NIC delivers `n` packets. -/
def nicRecv (s : Pipeline) (n : Nat) : Pipeline :=
  match s.rxLcore with
  | .pushing _ _ => s
  | .idle =>
    let mbufs := List.range' s.next (min n Config.ioRxBurst)
    let s := { s with next := s.next + mbufs.length, arrived := s.arrived ++ mbufs }
    if mbufs.length = 0 then s else { s with rxLcore := .pushing mbufs 0 }

/-- `nic_recv`, a round of the loop. -/
def nicRecvPush (s : Pipeline) (k : Nat) : Pipeline :=
  match s.rxLcore with
  | .idle => s
  | .pushing mbufs enqueued =>
    let r := s.rxRing.pushBurst (mbufs.drop enqueued) k
    let got := r.1
    let s := { s with rxRing := r.2 }
    -- ring full: the remainder is dropped
    if got = 0 then { s.freeBurst (mbufs.drop enqueued) with rxLcore := .idle }
    else if enqueued + got < mbufs.length then { s with rxLcore := .pushing mbufs (enqueued + got) }
    else { s with rxLcore := .idle }

/-- `recv_burst`. -/
def recvBurst (s : Pipeline) (n k : Nat) : Pipeline :=
  match s.workerLcore with
  | .sending _ _ => s
  | .running =>
    let r := s.rxRing.popBurst n k
    { s with rxRing := r.2, held := s.held ++ r.1, received := s.received ++ r.1 }

/-- The worker allocates a packet. -/
def alloc (s : Pipeline) : Pipeline :=
  match s.workerLcore with
  | .sending _ _ => s
  | .running => { s with held := s.held ++ [s.next], next := s.next + 1 }

/-- The worker frees a packet that it holds. -/
def free (s : Pipeline) (m : Nat) : Pipeline :=
  match s.workerLcore with
  | .sending _ _ => s
  | .running => if m ∈ s.held then { s.freeBurst [m] with held := s.held.erase m } else s

/-- The worker calls `send_burst` with packets that it holds. -/
def sendBurst (s : Pipeline) (pkts : List Nat) : Pipeline :=
  match s.workerLcore with
  | .sending _ _ => s
  | .running =>
    if pkts.Subperm s.held then
      let s := { s with held := s.held.diff pkts, passed := s.passed ++ pkts }
      if pkts.length = 0 then s else { s with workerLcore := .sending pkts 0 }
    else s

/-- `send_burst`, a round of the loop. -/
def sendBurstPush (s : Pipeline) (k : Nat) : Pipeline :=
  match s.workerLcore with
  | .running => s
  | .sending pkts sent =>
    let r := s.txRing.pushBurst (pkts.drop sent) k
    let en := r.1
    let s := { s with txRing := r.2 }
    -- ring full: sleep and try again
    if en = 0 then s
    else if sent + en < pkts.length then { s with workerLcore := .sending pkts (sent + en) }
    else { s with workerLcore := .running }

/-- `nic_send`, the call of `pop_burst`. -/
def nicSend (s : Pipeline) (k : Nat) : Pipeline :=
  match s.txLcore with
  | .holding _ => s
  | .idle =>
    let r := s.txRing.popBurst Config.ioTxBurst k
    let s := { s with txRing := r.2 }
    if r.1.length = 0 then s else { s with txLcore := .holding r.1 }

/-- `nic_send`, the call of `tx_burst`: the NIC takes `sent` packets, and the others are freed. -/
def nicSendBurst (s : Pipeline) (sent : Nat) : Pipeline :=
  match s.txLcore with
  | .idle => s
  | .holding mbufs =>
    { s.freeBurst (mbufs.drop sent) with
      txLcore := .idle
      offered := s.offered ++ mbufs
      accepted := s.accepted ++ mbufs.take sent }

/-- The steps, with what the rings and the NIC decide. A party that is elsewhere in its code does
nothing. -/
inductive Event
  | nicRecv (n : Nat)
  | nicRecvPush (k : Nat)
  | recvBurst (n k : Nat)
  | alloc
  | free (m : Nat)
  | sendBurst (pkts : List Nat)
  | sendBurstPush (k : Nat)
  | nicSend (k : Nat)
  | nicSendBurst (sent : Nat)

def step (s : Pipeline) : Event → Pipeline
  | .nicRecv n => s.nicRecv n
  | .nicRecvPush k => s.nicRecvPush k
  | .recvBurst n k => s.recvBurst n k
  | .alloc => s.alloc
  | .free m => s.free m
  | .sendBurst pkts => s.sendBurst pkts
  | .sendBurstPush k => s.sendBurstPush k
  | .nicSend k => s.nicSend k
  | .nicSendBurst sent => s.nicSendBurst sent

/-! ## Where a packet is -/

/-- The places in which a packet can be. -/
def places (s : Pipeline) : List Nat :=
  s.rxLcore.hands ++ s.rxRing.items ++ (s.held ++ s.workerLcore.unsent) ++ s.txRing.items ++
    s.txLcore.hands ++ s.accepted ++ s.freed

/-- The packets on their way to the worker, and those that it has received, in the order of the NIC. -/
def incoming (s : Pipeline) : List Nat := s.received ++ s.rxRing.items ++ s.rxLcore.hands

/-- The packets offered to the NIC, and those that are on their way there. -/
def outgoing (s : Pipeline) : List Nat :=
  s.offered ++ s.txLcore.hands ++ s.txRing.items ++ s.workerLcore.unsent

/-- The invariant: every packet is in one place, and the packets on either side of the worker are in
order. -/
structure Inv (s : Pipeline) : Prop where
  places : s.places.Perm (List.range s.next)
  arrived_lt : ∀ m ∈ s.arrived, m < s.next
  arrived_sorted : s.arrived.Pairwise (· < ·)
  incoming : s.incoming.Sublist s.arrived
  outgoing : s.passed = s.outgoing

theorem start_inv (ringSize : Nat) : (start ringSize).Inv where
  places := .refl _
  arrived_lt := nofun
  arrived_sorted := .nil
  incoming := .slnil
  outgoing := rfl

/-! ## Steps -/

variable {s : Pipeline}

/-- A step that moves packets, drops some of those on their way to the worker, and passes some to
`send_burst`. -/
structure Moves (s s' : Pipeline) : Prop where
  next : s'.next = s.next
  arrived : s'.arrived = s.arrived
  places : ∀ a, s'.places.count a = s.places.count a
  incoming : s'.incoming.Sublist s.incoming
  outgoing : ∃ pkts, s'.passed = s.passed ++ pkts ∧ s'.outgoing = s.outgoing ++ pkts

theorem Moves.refl (s : Pipeline) : s.Moves s :=
  ⟨rfl, rfl, fun _ => rfl, List.Sublist.refl _, [], by simp⟩

theorem Inv.moves (h : s.Inv) {s' : Pipeline} (hmoves : s.Moves s') : s'.Inv where
  places := by
    rw [hmoves.next]
    exact (List.perm_iff_count.mpr hmoves.places).trans h.places
  arrived_lt := by
    rw [hmoves.next, hmoves.arrived]
    exact h.arrived_lt
  arrived_sorted := by
    rw [hmoves.arrived]
    exact h.arrived_sorted
  incoming := by
    rw [hmoves.arrived]
    exact hmoves.incoming.trans h.incoming
  outgoing := by
    obtain ⟨pkts, hpassed, hout⟩ := hmoves.outgoing
    rw [hpassed, hout, h.outgoing]

theorem nicRecvPush_moves (s : Pipeline) (k : Nat) : s.Moves (s.nicRecvPush k) := by
  rw [Pipeline.nicRecvPush]
  cases hrx : s.rxLcore with
  | idle => exact .refl s
  | pushing mbufs enqueued =>
      have hmove := s.rxRing.pushBurst_items mbufs enqueued k
      dsimp only
      generalize s.rxRing.pushBurst (mbufs.drop enqueued) k = r at hmove ⊢
      obtain ⟨got, ring⟩ := r
      dsimp only at hmove ⊢
      have hcount := fun a => congrArg (List.count a) hmove
      simp only [List.count_append] at hcount
      split_ifs with hfull hmore
      · -- the remainder is freed
        subst hfull
        have hring : ring.items = s.rxRing.items := List.append_cancel_right hmove
        refine ⟨rfl, rfl, fun a => ?_, ?_, [], by simp [outgoing, freeBurst]⟩
        · simp only [places, freeBurst, hrx, RxLcore.hands, hring, List.count_append, List.count_nil]
          omega
        · simp only [incoming, freeBurst, hrx, RxLcore.hands, hring, List.append_nil]
          exact List.sublist_append_left _ _
      · refine ⟨rfl, rfl, fun a => ?_, ?_, [], by simp [outgoing]⟩
        · have hsame := hcount a
          simp only [places, hrx, RxLcore.hands, List.count_append]
          omega
        · simp only [incoming, hrx, RxLcore.hands, List.append_assoc, hmove]
          exact List.Sublist.refl _
      · -- the last round: nothing is left in hand
        have hnil : mbufs.drop (enqueued + got) = [] :=
          List.drop_eq_nil_of_le (Nat.not_lt.mp hmore)
        rw [hnil, List.append_nil] at hmove
        refine ⟨rfl, rfl, fun a => ?_, ?_, [], by simp [outgoing]⟩
        · have hsame := hcount a
          rw [hnil] at hsame
          simp only [places, hrx, RxLcore.hands, List.count_append]
          omega
        · simp only [incoming, hrx, RxLcore.hands, List.append_nil, List.append_assoc, hmove]
          exact List.Sublist.refl _

theorem recvBurst_moves (s : Pipeline) (n k : Nat) : s.Moves (s.recvBurst n k) := by
  rw [Pipeline.recvBurst]
  split
  · exact .refl s
  · have hmove := s.rxRing.popBurst_items n k
    have hcount := fun a => congrArg (List.count a) hmove
    simp only [List.count_append] at hcount
    refine ⟨rfl, rfl, fun a => ?_, ?_, [], by simp [outgoing]⟩
    · have hsame := hcount a
      simp only [places, List.count_append]
      omega
    · simp only [incoming, List.append_assoc]
      rw [← List.append_assoc _ _ s.rxLcore.hands, hmove]

theorem free_moves (s : Pipeline) (m : Nat) : s.Moves (s.free m) := by
  rw [Pipeline.free]
  split
  · exact .refl s
  · split_ifs with hm
    · refine ⟨rfl, rfl, fun a => ?_, List.Sublist.refl _, [], by simp [outgoing, freeBurst]⟩
      have herase := (List.perm_cons_erase hm).count_eq a
      rw [← List.singleton_append, List.count_append] at herase
      simp only [places, freeBurst, List.count_append]
      omega
    · exact .refl s

theorem sendBurst_moves (s : Pipeline) (pkts : List Nat) : s.Moves (s.sendBurst pkts) := by
  rw [Pipeline.sendBurst]
  cases hw : s.workerLcore with
  | sending pkts sent => exact .refl s
  | running =>
      dsimp only
      split_ifs with hheld hnil
      · obtain rfl := List.length_eq_zero_iff.mp hnil
        refine ⟨rfl, rfl, fun a => ?_, List.Sublist.refl _, [], rfl, ?_⟩
        · simp [places, hw]
        · simp [outgoing, hw]
      · refine ⟨rfl, rfl, fun a => ?_, List.Sublist.refl _, pkts, rfl, ?_⟩
        · have hdiff := (List.subperm_append_diff_self_of_count_le
            (List.subperm_ext_iff.mp hheld)).count_eq a
          rw [List.count_append] at hdiff
          simp only [places, hw, WorkerLcore.unsent, List.drop_zero, List.count_append,
            List.count_nil]
          omega
        · simp only [outgoing, hw, WorkerLcore.unsent, List.drop_zero, List.append_nil]
      · exact .refl s

theorem sendBurstPush_moves (s : Pipeline) (k : Nat) : s.Moves (s.sendBurstPush k) := by
  rw [Pipeline.sendBurstPush]
  cases hw : s.workerLcore with
  | running => exact .refl s
  | sending pkts sent =>
      have hmove := s.txRing.pushBurst_items pkts sent k
      dsimp only
      generalize s.txRing.pushBurst (pkts.drop sent) k = r at hmove ⊢
      obtain ⟨en, ring⟩ := r
      dsimp only at hmove ⊢
      have hcount := fun a => congrArg (List.count a) hmove
      simp only [List.count_append] at hcount
      split_ifs with hfull hmore
      · -- the worker stays where it is
        subst hfull
        have hring : ring.items = s.txRing.items := List.append_cancel_right hmove
        refine ⟨rfl, rfl, fun a => ?_, List.Sublist.refl _, [], ?_⟩
        · simp only [places, hw, hring]
        · simp [outgoing, hw, hring]
      · refine ⟨rfl, rfl, fun a => ?_, List.Sublist.refl _, [], ?_⟩
        · have hsame := hcount a
          simp only [places, hw, WorkerLcore.unsent, List.count_append]
          omega
        · simp [outgoing, hw, WorkerLcore.unsent, hmove]
      · have hnil : pkts.drop (sent + en) = [] := List.drop_eq_nil_of_le (Nat.not_lt.mp hmore)
        rw [hnil, List.append_nil] at hmove
        refine ⟨rfl, rfl, fun a => ?_, List.Sublist.refl _, [], ?_⟩
        · have hsame := hcount a
          rw [hnil] at hsame
          simp only [places, hw, WorkerLcore.unsent, List.count_append]
          omega
        · simp [outgoing, hw, WorkerLcore.unsent, hmove]

theorem nicSend_moves (s : Pipeline) (k : Nat) : s.Moves (s.nicSend k) := by
  rw [Pipeline.nicSend]
  cases htx : s.txLcore with
  | holding mbufs => exact .refl s
  | idle =>
      have hmove := s.txRing.popBurst_items Config.ioTxBurst k
      dsimp only
      generalize s.txRing.popBurst Config.ioTxBurst k = r at hmove ⊢
      obtain ⟨mbufs, ring⟩ := r
      dsimp only at hmove ⊢
      split_ifs with hnil
      · obtain rfl := List.length_eq_zero_iff.mp hnil
        rw [List.nil_append] at hmove
        refine ⟨rfl, rfl, fun a => ?_, List.Sublist.refl _, [], ?_⟩
        · simp only [places, htx, hmove]
        · simp [outgoing, htx, hmove]
      · refine ⟨rfl, rfl, fun a => ?_, List.Sublist.refl _, [], ?_⟩
        · have hsame := congrArg (List.count a) hmove
          rw [List.count_append] at hsame
          simp only [places, htx, TxLcore.hands, List.count_append, List.count_nil]
          omega
        · simp [outgoing, htx, TxLcore.hands, ← hmove]

theorem nicSendBurst_moves (s : Pipeline) (sent : Nat) : s.Moves (s.nicSendBurst sent) := by
  rw [Pipeline.nicSendBurst]
  cases htx : s.txLcore with
  | idle => exact .refl s
  | holding mbufs =>
      refine ⟨rfl, rfl, fun a => ?_, List.Sublist.refl _, [], ?_⟩
      · have hsplit := congrArg (List.count a) (List.take_append_drop sent mbufs)
        rw [List.count_append] at hsplit
        simp only [places, freeBurst, htx, TxLcore.hands, List.count_append, List.count_nil]
        omega
      · simp [outgoing, freeBurst, htx, TxLcore.hands]

/-- New packets have a place. -/
theorem Inv.perm_of_fresh (h : s.Inv) {s' : Pipeline} {n : Nat} (hnext : s'.next = s.next + n)
    (hplaces : ∀ a, s'.places.count a = s.places.count a + (List.range' s.next n).count a) :
    s'.places.Perm (List.range s'.next) := by
  rw [hnext, List.perm_iff_count]
  intro a
  rw [List.range_eq_range', ← List.range'_append_1, Nat.zero_add, ← List.range_eq_range',
    List.count_append, hplaces, h.places.count_eq]

theorem Inv.alloc (h : s.Inv) : s.alloc.Inv := by
  rw [Pipeline.alloc]
  split
  · exact h
  · refine ⟨h.perm_of_fresh (n := 1) rfl fun a => ?_, fun m hm => ?_, h.arrived_sorted, h.incoming,
      h.outgoing⟩
    · simp only [Pipeline.places, List.count_append, List.range'_one]
      omega
    · exact Nat.lt_succ_of_lt (h.arrived_lt m hm)

theorem Inv.nicRecv (h : s.Inv) (n : Nat) : (s.nicRecv n).Inv := by
  rw [Pipeline.nicRecv]
  cases hrx : s.rxLcore with
  | pushing mbufs enqueued => exact h
  | idle =>
      generalize hmbufs : List.range' s.next (min n Config.ioRxBurst) = mbufs
      have hlen : mbufs.length = min n Config.ioRxBurst := by rw [← hmbufs, List.length_range']
      -- the numbers of the new packets are above all others
      have hfresh : ∀ m ∈ mbufs, s.next ≤ m ∧ m < s.next + mbufs.length := by
        intro m hm
        rw [← hmbufs, List.mem_range'_1] at hm
        rw [hlen]
        exact hm
      have hsorted : (s.arrived ++ mbufs).Pairwise (· < ·) := by
        refine List.pairwise_append.mpr ⟨h.arrived_sorted, ?_, ?_⟩
        · rw [← hmbufs]
          exact List.pairwise_lt_range'
        · exact fun a ha b hb => Nat.lt_of_lt_of_le (h.arrived_lt a ha) (hfresh b hb).1
      have hlt : ∀ m ∈ s.arrived ++ mbufs, m < s.next + mbufs.length := by
        intro m hm
        rcases List.mem_append.mp hm with hold | hnew
        · exact Nat.lt_of_lt_of_le (h.arrived_lt m hold) (Nat.le_add_right _ _)
        · exact (hfresh m hnew).2
      have hin := h.incoming
      simp only [Pipeline.incoming, hrx, RxLcore.hands, List.append_nil] at hin
      dsimp only
      split_ifs with hnil
      · obtain rfl := List.length_eq_zero_iff.mp hnil
        refine ⟨?_, hlt, hsorted, ?_, h.outgoing⟩
        · simpa [Pipeline.places, hrx] using h.places
        · simpa [Pipeline.incoming, RxLcore.hands] using hin
      · refine ⟨h.perm_of_fresh (n := mbufs.length) rfl fun a => ?_, hlt, hsorted, ?_, h.outgoing⟩
        · rw [hlen, hmbufs]
          simp only [Pipeline.places, hrx, RxLcore.hands, List.drop_zero, List.count_append,
            List.count_nil]
          omega
        · exact hin.append (List.Sublist.refl mbufs)

theorem step_inv (s : Pipeline) (e : Event) (h : s.Inv) : (s.step e).Inv := by
  cases e with
  | nicRecv n => exact h.nicRecv n
  | nicRecvPush k => exact h.moves (s.nicRecvPush_moves k)
  | recvBurst n k => exact h.moves (s.recvBurst_moves n k)
  | alloc => exact h.alloc
  | free m => exact h.moves (s.free_moves m)
  | sendBurst pkts => exact h.moves (s.sendBurst_moves pkts)
  | sendBurstPush k => exact h.moves (s.sendBurstPush_moves k)
  | nicSend k => exact h.moves (s.nicSend_moves k)
  | nicSendBurst sent => exact h.moves (s.nicSendBurst_moves sent)

/-- The pipeline after a sequence of steps. -/
def after (ringSize : Nat) (events : List Event) : Pipeline := run step (start ringSize) events

/-- Whatever the order of the steps, and whatever the rings and the NIC decide: every packet that the
NIC has delivered is in exactly one place, and there once; the worker has received packets in the
order in which the NIC delivered them; and what is offered to the NIC is, in this order, what the
worker has passed to `send_burst`, less what is still on its way. -/
theorem conserves (ringSize : Nat) (events : List Event) :
    (∀ m ∈ (after ringSize events).arrived, (after ringSize events).places.count m = 1) ∧
      (after ringSize events).received.Sublist (after ringSize events).arrived ∧
      (after ringSize events).arrived.Nodup ∧
      (after ringSize events).passed =
        (after ringSize events).offered ++ (after ringSize events).txLcore.hands ++
          (after ringSize events).txRing.items ++ (after ringSize events).workerLcore.unsent := by
  have hinv : (after ringSize events).Inv := run_invariant step_inv (start_inv ringSize) events
  generalize after ringSize events = s at hinv ⊢
  refine ⟨fun m hm => ?_, ?_, hinv.arrived_sorted.imp (fun hlt => Nat.ne_of_lt hlt), hinv.outgoing⟩
  · rw [hinv.places.count_eq]
    exact List.count_eq_one_of_mem List.nodup_range (List.mem_range.mpr (hinv.arrived_lt m hm))
  · have hprefix : s.received.Sublist s.incoming := by
      rw [Pipeline.incoming, List.append_assoc]
      exact List.sublist_append_left _ _
    exact hprefix.trans hinv.incoming

/-- A ring of two slots: of three packets one is dropped, and the two others reach the NIC. -/
example : (after 2 [.nicRecv 3, .nicRecvPush 3, .nicRecvPush 1, .recvBurst 32 2, .sendBurst [1, 0],
    .sendBurstPush 2, .nicSend 2, .nicSendBurst 1]).offered = [1, 0] ∧
    (after 2 [.nicRecv 3, .nicRecvPush 3, .nicRecvPush 1]).freed = [2] := by
  decide

end Pipeline

end VioletGateway
