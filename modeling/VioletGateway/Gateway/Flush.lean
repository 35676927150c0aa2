import VioletGateway.Gateway.Clock

/-!
# Flushing one queue

`flush_pending` for an address with a queue sorts the queue into three parts: the packets that have
waited too long are freed, as many of the others as there is room for are sent, if the address is
resolved, and the rest stays. Each part keeps the order of the queue, and nothing else changes
(`Partitioned`).

The statement is about every worker that a flush can meet (`AtFlush`): a reachable one whose gateway has
just handled a frame, which is where the loop calls `flush_pending`, or one between two steps. It takes
from there that the frames in a queue parse and that no buffer is in it twice; the contents of the
transmit array may be any.
-/

set_option autoImplicit false

namespace VioletGateway

open Support

/-! ## The MAC addresses of a frame that is sent -/

theorem Frame.mac_withL2 (f : Frame) (src dst : EtherAddr) :
    (f.withL2 src dst).mac EtherHdr.srcAddr = src ∧ (f.withL2 src dst).mac EtherHdr.dstAddr = dst := by
  constructor
  · -- the destination is written last, and before the source
    apply (ByteMem.load_store_of_disjoint (Or.inr (by decide))).trans
    exact ByteMem.load_store_self _ _
  · exact ByteMem.load_store_self _ _

namespace Worker

variable (rte : Rte) {w : Worker} {ip : UInt32} {q : List ArpPendingEntry}

/-! ## Age in milliseconds -/

/-- The packet has waited for the timeout or longer. -/
def overdue (now : UInt64) (e : ArpPendingEntry) : Bool :=
  decide (e.enqueuedMs.toNat + Config.arpPendingTimeoutMs.toNat ≤ now.toNat)

theorem timedOut_eq_overdue {now : UInt64} {e : ArpPendingEntry} (h : e.enqueuedMs ≤ now) :
    timedOut now e = overdue now e := by
  rw [timedOut, overdue, decide_eq_decide]
  exact timeout_iff h _

theorem filter_timedOut {now : UInt64} (h : ∀ e ∈ q, e.enqueuedMs ≤ now) :
    q.filter (timedOut now) = q.filter (overdue now) ∧
      inTime now q = q.filter fun e => !overdue now e := by
  constructor
  · exact List.filter_congr fun e he => timedOut_eq_overdue (h e he)
  · exact List.filter_congr fun e he => congrArg not (timedOut_eq_overdue (h e he))

/-! ## The buffers of a queue -/

theorem queue_eq_of_lookup (hq : w.gw.arpPending.lookup ip = some q) : w.queue ip = q :=
  congrArg (Option.getD · []) hq

/-- No buffer is in a queue twice. -/
theorem Reachable.nodup_queue {cfg : ServiceConfig} (hw : Reachable rte cfg w) (ip : UInt32) :
    (addrs (w.queue ip)).Nodup := by
  rw [List.nodup_iff_count_le_one]
  intro a
  have htally := hw.tally_le a
  have hperm := (contents_perm_erase w.gw.arpPending ip).map fun e => e.m.addr
  have hheld : (addrs (w.queue ip)).count a ≤ w.held.count a := by
    rw [held, hperm.count_eq, List.map_append, List.count_append]
    exact Nat.le_add_right _ _
  rw [tally] at htally
  omega

/-- A buffer that is freed is not among those that stay. -/
theorem not_mem_of_overdue (hnodup : (addrs q).Nodup) {now : UInt64} {e e' : ArpPendingEntry}
    (he : e ∈ q.filter (overdue now)) (he' : e' ∈ q.filter fun e => !overdue now e) :
    e.m.addr ≠ e'.m.addr := by
  intro haddr
  obtain ⟨hmem, hold⟩ := List.mem_filter.mp he
  obtain ⟨hmem', hlive⟩ := List.mem_filter.mp he'
  obtain rfl := List.inj_on_of_nodup_map hnodup hmem hmem' haddr
  rw [hold] at hlive
  exact absurd hlive (by decide)

/-! ## The flush -/

/-- What a flush of the queue `q` of `ip` does: `sent` goes to the transmit array and `kept` stays. -/
structure Partitioned (ip : UInt32) (now : UInt64) (cap : Nat) (q sent kept : List ArpPendingEntry)
    (w w' : Worker) : Prop where
  freed : w'.pool = w.pool.freeBurst ((q.filter (overdue now)).map ArpPendingEntry.m)
  tx : w'.tx.items = w.tx.items ++ sent.map ArpPendingEntry.m
  notFreed : ∀ e ∈ q.filter (overdue now), ∀ e' ∈ sent ++ kept, e.m.addr ≠ e'.m.addr
  unresolved : w.gw.neighbors.lookup ip = none →
    sent = [] ∧ kept = q.filter fun e => !overdue now e
  resolved : ∀ a, w.gw.neighbors.lookup ip = some a →
    sent = ((q.filter fun e => !overdue now e).take (cap - w.tx.n)).map
        (·.withL2 w.gw.fcfg.gatewayMac a) ∧
      kept = ((q.filter fun e => !overdue now e).drop (cap - w.tx.n)).map
        (·.withL2 w.gw.fcfg.gatewayMac a) ∧
      ∀ e ∈ sent, e.m.frame.mac EtherHdr.srcAddr = w.gw.fcfg.gatewayMac ∧
        e.m.frame.mac EtherHdr.dstAddr = a
  queue : w'.gw.arpPending.lookup ip = if kept = [] then none else some kept
  n_le : w'.tx.n ≤ cap
  others : ∀ ip', ip' ≠ ip → w'.gw.arpPending.lookup ip' = w.gw.arpPending.lookup ip'

/-- On a queue, the flush is its loop. -/
theorem flushPending_eq (hip : ip ≠ 0) (hne : w.queue ip ≠ []) (now : UInt64) (cap : Nat) :
    w.flushPending rte ip now cap =
      storeRemaining ip ((w.queue ip).foldl (flushEntry rte ip now cap) (w, [])) := by
  rw [flushPending, if_neg hip, if_neg hne]
  rfl

theorem storeRemaining_pool (ip : UInt32) (s : Worker × List ArpPendingEntry) :
    (storeRemaining ip s).pool = s.1.pool := by
  rw [storeRemaining, setPending]
  split_ifs <;> rfl

/-- A flush for an address that is not resolved. -/
theorem flushPending_unresolved (hip : ip ≠ 0) (hne : w.queue ip ≠ [])
    (haccepts : ∀ e ∈ w.queue ip, e.m.frame.Accepts) (hnodup : (addrs (w.queue ip)).Nodup)
    {now : UInt64} (htime : ∀ e ∈ w.queue ip, e.enqueuedMs ≤ now) {cap : Nat} (hroom : w.tx.n ≤ cap)
    (hnone : w.gw.neighbors.lookup ip = none) :
    Partitioned ip now cap (w.queue ip) [] ((w.queue ip).filter fun e => !overdue now e) w
      (w.flushPending rte ip now cap) := by
  obtain ⟨hold, hlive⟩ := filter_timedOut htime
  obtain ⟨hkept, htx, hpool⟩ := foldl_flushEntry_unresolved rte now cap _ haccepts w [] hnone
  rw [hlive, List.nil_append] at hkept
  rw [hold] at hpool
  rw [flushPending_eq rte hip hne]
  refine ⟨?_, ?_, ?_, fun _ => ⟨rfl, rfl⟩, ?_, ?_, ?_, ?_⟩
  · rw [storeRemaining_pool, hpool]
  · rw [storeRemaining_tx, htx, List.map_nil, List.append_nil]
  · intro e he e' he'
    exact not_mem_of_overdue hnodup he he'
  · intro a ha
    rw [hnone] at ha
    cases ha
  · rw [storeRemaining_lookup, if_pos rfl, hkept]
  · rw [storeRemaining_tx, htx]
    exact hroom
  · intro ip' hip'
    rw [storeRemaining_lookup, if_neg hip', foldl_flushEntry_gw]

/-- A flush for an address that is resolved. -/
theorem flushPending_sends (hip : ip ≠ 0) (hne : w.queue ip ≠ [])
    (haccepts : ∀ e ∈ w.queue ip, e.m.frame.Accepts) (hnodup : (addrs (w.queue ip)).Nodup)
    {now : UInt64} (htime : ∀ e ∈ w.queue ip, e.enqueuedMs ≤ now) {cap : Nat} (hroom : w.tx.n ≤ cap)
    {a : EtherAddr} (ha : w.gw.neighbors.lookup ip = some a) :
    Partitioned ip now cap (w.queue ip)
      ((((w.queue ip).filter fun e => !overdue now e).take (cap - w.tx.n)).map
        (·.withL2 w.gw.fcfg.gatewayMac a))
      ((((w.queue ip).filter fun e => !overdue now e).drop (cap - w.tx.n)).map
        (·.withL2 w.gw.fcfg.gatewayMac a)) w (w.flushPending rte ip now cap) := by
  obtain ⟨hold, hlive⟩ := filter_timedOut htime
  obtain ⟨hkept, htx, hpool⟩ := foldl_flushEntry_resolved rte now cap _ haccepts w [] ha
  rw [hlive, List.nil_append, ← List.map_drop] at hkept
  rw [hlive, ← List.map_take] at htx
  rw [hold] at hpool
  rw [flushPending_eq rte hip hne]
  refine ⟨?_, ?_, ?_, ?_, ?_, ?_, ?_, ?_⟩
  · rw [storeRemaining_pool, hpool]
  · rw [storeRemaining_tx, htx]
  · intro e he e' he'
    -- the L2 rewrite keeps the buffer
    rw [← List.map_append, List.take_append_drop] at he'
    obtain ⟨e₀, he₀, rfl⟩ := List.mem_map.mp he'
    have haddr := not_mem_of_overdue hnodup he he₀
    exact haddr
  · intro hnone
    rw [ha] at hnone
    cases hnone
  · intro b hb
    obtain rfl := Option.some.inj (ha.symm.trans hb)
    refine ⟨rfl, rfl, ?_⟩
    intro e he
    obtain ⟨e₀, -, rfl⟩ := List.mem_map.mp he
    exact e₀.m.frame.mac_withL2 _ _
  · rw [storeRemaining_lookup, if_pos rfl, hkept]
  · have hlen := congrArg List.length htx
    rw [List.length_append, List.length_map, List.length_map, List.length_take] at hlen
    show (storeRemaining ip _).tx.items.length ≤ cap
    rw [storeRemaining_tx, hlen]
    rw [OutArray.n] at hroom ⊢
    omega
  · intro ip' hip'
    rw [storeRemaining_lookup, if_neg hip', foldl_flushEntry_gw]

/-! ## Where a flush is called -/

/-- The workers that a flush can meet. The loop calls it inside of a step, when the gateway has handled
the frame `f` and `rest` is still to come; between two steps it is not called, but could be. -/
inductive AtFlush (cfg : ServiceConfig) : Worker → Prop
  | between {w : Worker} (h : Reachable rte cfg w) : AtFlush cfg w
  | handled {w : Worker} (h : Reachable rte cfg w) (now : UInt64) (f : Frame) (rest : List Mbuf) :
      AtFlush cfg { w with rx := rest, gw := ((w.gw.handle rte now).run f).val.2 }

/-- The queues are those of a reachable worker. -/
theorem AtFlush.queues {cfg : ServiceConfig} (hw : AtFlush rte cfg w) :
    ∃ w₀, Reachable rte cfg w₀ ∧ w.gw.arpPending = w₀.gw.arpPending := by
  cases hw with
  | between h => exact ⟨w, h, rfl⟩
  | @handled w h now f rest =>
      exact ⟨w, h, (w.gw.handle_cases rte (h.sound rte).1.sessions now f).arpPending⟩

/-- `flush_pending` partitions every queue that it can meet, whatever is in the transmit array. -/
theorem flushPending_partitions {cfg : ServiceConfig} (hw : AtFlush rte cfg w)
    (hq : w.gw.arpPending.lookup ip = some q) {now : UInt64} (htime : ∀ e ∈ q, e.enqueuedMs ≤ now)
    (tx : OutArray) {cap : Nat} (hroom : tx.n ≤ cap) :
    ∃ sent kept, Partitioned ip now cap q sent kept { w with tx := tx }
      (({ w with tx := tx } : Worker).flushPending rte ip now cap) := by
  obtain ⟨w₀, hreach, hqueues⟩ := hw.queues
  obtain ⟨hok, -⟩ := (hreach.sound rte).2 ip q (hqueues ▸ hq)
  have hnodup := hreach.nodup_queue rte ip
  have hsame : w₀.queue ip = w.queue ip := congrArg (listAt · ip) hqueues.symm
  rw [hsame] at hnodup
  obtain rfl := queue_eq_of_lookup hq
  cases hmac : w.gw.neighbors.lookup ip with
  | none =>
      exact ⟨_, _, flushPending_unresolved rte (w := { w with tx := tx }) hok.ip_ne hok.ne_nil
        hok.accepts hnodup htime hroom hmac⟩
  | some a =>
      exact ⟨_, _, flushPending_sends rte (w := { w with tx := tx }) hok.ip_ne hok.ne_nil
        hok.accepts hnodup htime hroom hmac⟩

/-- Five client frames wait for the new upstream `10.0.0.2`, two since time 0 and three since 4000. -/
def labBacklog : Worker := run (step Rte.dpdk) (start .lab none none)
  [.pollControl (some ⟨.mod, [⟨Config.ipv4From ![10, 0, 0, 2], 53⟩]⟩),
    .recvBurst (List.replicate 5 labClientFrame), .handleNext 0 none, .handleNext 0 none,
    .handleNext 4000 none, .handleNext 4000 none, .handleNext 4000 none]

/-- A frame of the upstream, which resolves it. -/
def labSelfFrame : Frame := .udp [10, 0, 0, 2] [192, 168, 1, 1] 53 53

/-- The gateway has handled that frame at 5000. -/
def labHandled : Worker :=
  { labBacklog with
    rx := []
    gw := ((labBacklog.gw.handle Rte.dpdk 5000).run labSelfFrame).val.2 }

/-- Two frames are in `tx` already. -/
def labAnnounced : Worker :=
  { labHandled with tx := ⟨[⟨8, labClientFrame⟩, ⟨9, labClientFrame⟩], [0, 1]⟩ }

/-- With room for two more, the two overdue packets are freed, the next two are sent to the MAC address
of the upstream, and the last one is kept. -/
theorem flushPending_partitions_lab :
    ∃ q sent kept, Partitioned (Config.ipv4From ![10, 0, 0, 2]) 5000 4 q sent kept labAnnounced
        (labAnnounced.flushPending Rte.dpdk (Config.ipv4From ![10, 0, 0, 2]) 5000 4) ∧
      (labAnnounced.flushPending Rte.dpdk (Config.ipv4From ![10, 0, 0, 2]) 5000 4).pool.freed = [0, 1] ∧
      addrs sent = [2, 3] ∧ addrs kept = [4] ∧
      ∀ e ∈ sent, e.m.frame.mac EtherHdr.dstAddr = ![2, 0, 0, 0, 0, 9] := by
  have hflush : AtFlush Rte.dpdk .lab labHandled := .handled ⟨none, none, _, rfl⟩ 5000 labSelfFrame []
  have hwait : (labHandled.gw.arpPending.lookup (Config.ipv4From ![10, 0, 0, 2])).map
      (fun q => q.map ArpPendingEntry.enqueuedMs) = some [0, 0, 4000, 4000, 4000] := by
    decide +kernel
  have hmac : labAnnounced.gw.neighbors.lookup (Config.ipv4From ![10, 0, 0, 2]) =
      some ![2, 0, 0, 0, 0, 9] := by
    decide +kernel
  have htx : (labAnnounced.flushPending Rte.dpdk (Config.ipv4From ![10, 0, 0, 2]) 5000 4).tx.items.map
      Mbuf.addr = [8, 9, 2, 3] := by
    decide +kernel
  have hrest : ((labAnnounced.flushPending Rte.dpdk (Config.ipv4From ![10, 0, 0, 2]) 5000
      4).gw.arpPending.lookup (Config.ipv4From ![10, 0, 0, 2])).map addrs = some [4] := by
    decide +kernel
  obtain ⟨q, hq, htimes⟩ := Option.map_eq_some_iff.mp hwait
  have htime : ∀ e ∈ q, e.enqueuedMs ≤ 5000 := by
    intro e he
    have hmem := List.mem_map_of_mem (f := ArpPendingEntry.enqueuedMs) he
    rw [htimes] at hmem
    have htimes' : e.enqueuedMs = 0 ∨ e.enqueuedMs = 4000 := by simpa using hmem
    rcases htimes' with h | h
    · rw [h]
      decide
    · rw [h]
      decide
  obtain ⟨sent, kept, hpart⟩ :=
    flushPending_partitions Rte.dpdk hflush hq htime
      ⟨[⟨8, labClientFrame⟩, ⟨9, labClientFrame⟩], [0, 1]⟩ (by decide : _ ≤ 4)
  rw [show ({ labHandled with tx := _ } : Worker) = labAnnounced from rfl] at hpart
  refine ⟨q, sent, kept, hpart, by decide +kernel, ?_, ?_, ?_⟩
  · have hsent := (congrArg (List.map Mbuf.addr) hpart.tx).symm.trans htx
    rw [List.map_append, List.map_map] at hsent
    have hsplit : [8, 9] ++ addrs sent = [8, 9] ++ [2, 3] := hsent
    exact List.append_cancel_left hsplit
  · have hkept := (congrArg (Option.map addrs) hpart.queue).symm.trans hrest
    split_ifs at hkept
    · cases hkept
    · exact Option.some.inj hkept
  · exact fun e he => ((hpart.resolved _ hmac).2.2 e he).2

end Worker

end VioletGateway
