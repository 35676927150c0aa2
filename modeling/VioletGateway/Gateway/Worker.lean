import VioletGateway.Gateway.Services
import VioletGateway.Support.Run

/-!
# The worker loop

Model of `VioletGW::run` and of the methods it calls on the way: the queues of packets that wait for
an address, the ARP probes, and the arrays `rx`, `tx` and `drop` of one iteration.

Packet buffers are identified by their address; the pool hands out a new address for every buffer
that is received or allocated, and records which buffers were freed and which were handed to the NIC.
The arrays are lists, with a log of the indices that were written.

`Event` are the steps of the loop taken one by one; `iterate` is one iteration of the loop, and is a
run of events (`iterate_worker`).
-/

set_option autoImplicit false

namespace VioletGateway

open Support

/-! ## Buffers -/

/-- The buffers of the mempool as the worker sees them. -/
structure MbufPool where
  /-- number of buffers received or allocated so far; the next one gets this address -/
  next : Nat := 0
  freed : List Nat := []
  sent : List Nat := []

namespace MbufPool

/-- `rte_pktmbuf_free`. -/
def free (P : MbufPool) (m : Mbuf) : MbufPool := { P with freed := P.freed ++ [m.addr] }

/-- `DpdkNetif::free_burst`. -/
def freeBurst (P : MbufPool) (ms : List Mbuf) : MbufPool :=
  { P with freed := P.freed ++ ms.map Mbuf.addr }

/-- Buffers accepted by the NIC. -/
def handOver (P : MbufPool) (ms : List Mbuf) : MbufPool :=
  { P with sent := P.sent ++ ms.map Mbuf.addr }

/-- `rte_pktmbuf_alloc`: `buf` is the buffer that the mempool gives out, if it has one. -/
def alloc (P : MbufPool) (buf : Option Frame) : Option Mbuf × MbufPool :=
  match buf with
  | none => (none, P)
  | some f => (some ⟨P.next, { f with dataLen := 0 }⟩, { P with next := P.next + 1 })

/-- Buffers for received frames. -/
def receive (P : MbufPool) : List Frame → List Mbuf × MbufPool
  | [] => ([], P)
  | f :: fs =>
    let r := receive { P with next := P.next + 1 } fs
    (⟨P.next, f⟩ :: r.1, r.2)

end MbufPool

/-- One of the arrays `tx` and `drop` of the loop, with the log of the indices written. -/
structure OutArray where
  items : List Mbuf := []
  writes : List Nat := []

namespace OutArray

/-- The fill count `n_tx` or `n_drop`. -/
def n (a : OutArray) : Nat := a.items.length

/-- `a[n++] = m`. -/
def push (a : OutArray) (m : Mbuf) : OutArray := ⟨a.items ++ [m], a.writes ++ [a.n]⟩

end OutArray

/-! ## The methods of the gateway that the loop calls -/

/-- The gateway together with the buffers and arrays that the loop works on. -/
structure Worker where
  gw : VioletGW
  pool : MbufPool := {}
  /-- received and not handled yet -/
  rx : List Mbuf := []
  tx : OutArray := {}
  drop : OutArray := {}

namespace Worker

variable (rte : Rte) (w : Worker)

def pushTx (m : Mbuf) : Worker := { w with tx := w.tx.push m }

def pushDrop (m : Mbuf) : Worker := { w with drop := w.drop.push m }

def free (m : Mbuf) : Worker := { w with pool := w.pool.free m }

def setPending (q : AList fun _ : UInt32 => List ArpPendingEntry) : Worker :=
  { w with gw := { w.gw with arpPending := q } }

/-- The packets that wait for `ip`. -/
def queue (ip : UInt32) : List ArpPendingEntry := listAt w.gw.arpPending ip

/-- `enqueue_pending`. -/
def enqueuePending (ip : UInt32) (m : Mbuf) (nowMs : UInt64) : Worker :=
  -- an early return: the buffer is neither stored nor freed
  if ip = 0 then w
  -- a full queue drops the new packet, not the oldest one
  else if (w.queue ip).length ≥ Config.arpPendingMaxPerIp then w.free m
  else w.setPending (w.gw.arpPending.insert ip (w.queue ip ++ [⟨m, nowMs⟩]))

/-- A probe for `ip` was sent less than the probe interval ago. -/
def probedRecently (ip : UInt32) (nowMs : UInt64) : Bool :=
  match w.gw.arpProbeLastMs.lookup ip with
  -- unsigned difference, as in the source
  | some last => decide (nowMs - last < Config.arpProbeIntervalMs)
  | none => false

/-- `make_request`, with `buf` as in `alloc`. -/
def makeRequest (ip : UInt32) (buf : Option Frame) : Option Mbuf × Worker :=
  let r := w.pool.alloc buf
  let w := { w with pool := r.2 }
  match r.1 with
  | none => (none, w)
  | some m =>
    let made := (w.gw.acfg.makeRequest ip).run m.frame
    let m := { m with frame := made.mem }
    if made.val then (some m, w) else (none, w.free m)

/-- `maybe_probe_arp`. -/
def maybeProbeArp (ip : UInt32) (nowMs : UInt64) (buf : Option Frame) (txCap : Nat) : Worker :=
  if ip = 0 then w
  else if w.probedRecently ip nowMs then w
  else
    let r := w.makeRequest ip buf
    let w := r.2
    match r.1 with
    | none => w
    | some probe =>
      -- no room: the time is not recorded, so that the next packet tries again
      if w.tx.n ≥ txCap then w.free probe
      else
        let w := w.pushTx probe
        { w with gw := { w.gw with arpProbeLastMs := w.gw.arpProbeLastMs.insert ip nowMs } }

/-- The test for a packet that has waited too long. -/
def timedOut (nowMs : UInt64) (e : ArpPendingEntry) : Bool :=
  decide (nowMs - e.enqueuedMs ≥ Config.arpPendingTimeoutMs)

/-- One round of the loop in `flush_pending`: the worker and the vector `remaining`. -/
def flushEntry (ip : UInt32) (nowMs : UInt64) (txCap : Nat) (s : Worker × List ArpPendingEntry)
    (e : ArpPendingEntry) : Worker × List ArpPendingEntry :=
  let w := s.1
  let remaining := s.2
  -- a packet that has waited too long is freed even if it could be sent now
  if timedOut nowMs e then (w.free e.m, remaining)
  else
    let r := (w.gw.forwarder.finishL2 rte (some w.gw.neighbors) ip).run e.m.frame
    let e := { e with m := { e.m with frame := r.mem } }
    -- `finish_l2` writes to the frame before it is known whether there is room for it
    if !r.val then (w, remaining ++ [e])
    else if w.tx.n ≥ txCap then (w, remaining ++ [e])
    else (w.pushTx e.m, remaining)

/-- `flush_pending`. -/
def flushPending (ip : UInt32) (nowMs : UInt64) (txCap : Nat) : Worker :=
  if ip = 0 then w
  else if w.queue ip = [] then w
  else
    let s := (w.queue ip).foldl (flushEntry rte ip nowMs txCap) (w, [])
    if s.2 = [] then s.1.setPending (s.1.gw.arpPending.erase ip)
    else s.1.setPending (s.1.gw.arpPending.insert ip s.2)

/-- The packets of a queue that stay in it when `expire_pending` passes; an empty queue is erased. -/
def unexpired (nowMs : UInt64) (q : List ArpPendingEntry) : Option (List ArpPendingEntry) :=
  if q.filter (fun e => !timedOut nowMs e) = [] then none
  else some (q.filter fun e => !timedOut nowMs e)

/-- `expire_pending`. -/
def expirePending (nowMs : UInt64) : Worker :=
  -- freed in the order of the map; only the set of them matters
  let expired := (contents w.gw.arpPending).filter (timedOut nowMs)
  let w := { w with pool := w.pool.freeBurst (expired.map ArpPendingEntry.m) }
  w.setPending (mapMaybe (fun _ q => unexpired nowMs q) w.gw.arpPending)

/-! ## One received frame -/

/-- The first part of what the loop does with an outcome: release the packets that wait for the
address reported. -/
def flushLearned (o : HandleOutcome) (nowMs : UInt64) (txCap : Nat) : Worker :=
  if o.learnedIp ≠ 0 then w.flushPending rte o.learnedIp nowMs txCap else w

/-- The second part: what becomes of the frame itself. -/
def dispose (o : HandleOutcome) (m : Mbuf) (nowMs : UInt64) (buf : Option Frame) (txCap : Nat) :
    Worker :=
  match o.result with
  | .drop => w.pushDrop m
  | .pendingArp =>
    (w.enqueuePending o.arpWaitIp m nowMs).maybeProbeArp o.arpWaitIp nowMs buf txCap
  | .txForward | .txReverse | .txArp => w.pushTx m

/-- The body of the loop over a burst, for the buffer `m`. -/
def handleRx (m : Mbuf) (nowMs : UInt64) (buf : Option Frame) (txCap : Nat) : Worker :=
  let r := (w.gw.handle rte nowMs).run m.frame
  let w := { w with gw := r.val.2 }
  (w.flushLearned rte r.val.1 nowMs txCap).dispose r.val.1 { m with frame := r.mem } nowMs buf txCap

/-! ## Sending -/

/-- The loop around `send_burst`: `accepted` are its successive results, `0` after the last one. The
result is what was handed over and what is left. -/
def sendLoop : List Nat → List Mbuf → List Mbuf × List Mbuf
  | [], rest => ([], rest)
  | a :: accepted, rest =>
    if rest = [] then ([], [])
    else
      let k := min a rest.length
      -- the NIC took nothing: the loop gives up
      if k = 0 then ([], rest)
      else
        let r := sendLoop accepted (rest.drop k)
        (rest.take k ++ r.1, r.2)

/-- The end of an iteration: transmit, free what the NIC did not take, free the dropped frames. -/
def finishBurst (accepted : List Nat) : Worker :=
  let r := sendLoop accepted w.tx.items
  { w with
    pool := ((w.pool.handOver r.1).freeBurst r.2).freeBurst w.drop.items
    tx := {}
    drop := {} }

/-- `recv_burst`. -/
def recvBurst (frames : List Frame) : Worker :=
  let r := w.pool.receive frames
  { w with pool := r.2, rx := w.rx ++ r.1 }

/-! ## Steps -/

/-- The steps of the worker. -/
inductive Event
  | expireSessions (nowMs : UInt64)
  | expireNeighbors (nowMs : UInt64)
  | expirePending (nowMs : UInt64)
  | pollControl (update : Option CpUpdate)
  | setUpstreams (endpoints : List UpstreamEndpoint)
  | setPolicy (policy : BalancePolicy)
  | recvBurst (frames : List Frame)
  /-- handle the next received buffer; `buf` is what the mempool gives out for a probe -/
  | handleNext (nowMs : UInt64) (buf : Option Frame)
  | finishBurst (accepted : List Nat)

/-- The worker after a step. -/
def step (w : Worker) : Event → Worker
  | .expireSessions nowMs => { w with gw := w.gw.expireSessions nowMs }
  | .expireNeighbors nowMs => { w with gw := w.gw.expireNeighbors nowMs }
  | .expirePending nowMs => w.expirePending nowMs
  | .pollControl update => { w with gw := w.gw.pollControl update }
  | .setUpstreams endpoints => { w with gw := { w.gw with upstreams := w.gw.upstreams.set endpoints } }
  | .setPolicy policy => { w with gw := { w.gw with upstreams := w.gw.upstreams.setPolicy policy } }
  | .recvBurst frames => w.recvBurst frames
  | .handleNext nowMs buf =>
    match w.rx with
    | [] => w
    | m :: rest => { w with rx := rest }.handleRx rte m nowMs buf Config.ioRxBurst
  | .finishBurst accepted => w.finishBurst accepted

/-- The worker when `run` is entered. -/
def start (cfg : ServiceConfig) (shm : Option CpUpdate) (nicMac : Option EtherAddr) : Worker where
  gw := .init cfg shm nicMac

/-- The states that the steps of the worker reach after some initialisation. -/
def Reachable (cfg : ServiceConfig) (w : Worker) : Prop :=
  ∃ shm nicMac, Reaches (step rte) (start cfg shm nicMac) w

end Worker

/-! ## The loop -/

/-- The variables that live across iterations. -/
structure LoopState where
  worker : Worker
  lastExpireMs : UInt64
  lastArpExpireMs : UInt64
  lastCpPollMs : UInt64

/-- What one iteration gets from outside: the clock, the shared memory, the received frames, each
with the buffer that the mempool would give out for a probe, and the results of `send_burst`. -/
structure LoopInput where
  nowMs : UInt64
  control : Option CpUpdate
  rx : List (Frame × Option Frame)
  rx_le : rx.length ≤ Config.ioRxBurst
  accepted : List Nat

namespace LoopState

variable (rte : Rte)

/-- The timers at the head of an iteration. -/
def housekeeping (s : LoopState) (nowMs : UInt64) (control : Option CpUpdate) : LoopState :=
  let s :=
    if nowMs - s.lastExpireMs ≥ Config.sessionExpireIntervalMs then
      { s with
        worker := { s.worker with gw := s.worker.gw.expireSessions nowMs }
        lastExpireMs := nowMs }
    else s
  let s :=
    if nowMs - s.lastArpExpireMs ≥ Config.arpExpireIntervalMs then
      { s with
        worker := { s.worker with gw := s.worker.gw.expireNeighbors nowMs }.expirePending nowMs
        lastArpExpireMs := nowMs }
    else s
  if nowMs - s.lastCpPollMs ≥ Config.cpPollIntervalMs then
    { s with
      worker := { s.worker with gw := s.worker.gw.pollControl control }
      lastCpPollMs := nowMs }
  else s

/-- The loop over the received burst, with the buffers for probes. -/
def handleBurst (nowMs : UInt64) : List (Option Frame) → Worker → Worker
  | [], w => w
  | buf :: bufs, w => handleBurst nowMs bufs (w.step rte (.handleNext nowMs buf))

/-- One iteration of the loop in `run`. -/
def iterate (s : LoopState) (inp : LoopInput) : LoopState :=
  let s := s.housekeeping inp.nowMs inp.control
  if inp.rx = [] then s
  else
    let w := s.worker.recvBurst (inp.rx.map Prod.fst)
    let w := handleBurst rte inp.nowMs (inp.rx.map Prod.snd) w
    { s with worker := w.finishBurst inp.accepted }

/-- The loop at its first iteration. -/
def start (cfg : ServiceConfig) (shm : Option CpUpdate) (nicMac : Option EtherAddr)
    (nowMs : UInt64) : LoopState :=
  ⟨.start cfg shm nicMac, nowMs, nowMs, nowMs⟩

end LoopState

end VioletGateway
