import Mathlib.Algebra.BigOperators.Group.Finset.Basic
import Mathlib.Data.List.TakeWhile
import VioletGateway.Gateway.Probe

/-!
# What a burst asks of the transmit array

Three kinds of packets go into the array `tx` of a burst: the frames that are transmitted at once, the
ARP probes, and the packets that waited for an address that a frame of the burst announces.
`Worker.demand` counts them from the state in which the burst is received: from its queues, the times
of its probes, and what its tables decide about the frames (`Verdict`). The queues have no part in the
verdicts (`verdicts_sameCore`), so these can be read off the tables before the burst is handled.

The lemmas on one more frame say how each of the counts grows; `demand_concat` puts them together.
-/

set_option autoImplicit false

namespace VioletGateway

open Support

/-! ## What the tables decide about a frame -/

/-- What is decided about a frame of a burst; the queues and the arrays have no part in it. -/
structure Verdict where
  /-- the frame is transmitted at once -/
  answered : Bool
  /-- the address for which the frame has to wait, or `0` -/
  waitIp : UInt32
  /-- a probe for that address can be made -/
  probe : Bool
  /-- the address whose packets the frame releases, or `0` -/
  announced : UInt32
  /-- that address is resolved -/
  resolved : Bool

namespace VioletGW

variable (rte : Rte) (g : VioletGW)

/-- The address whose packets a frame releases if there are any: the one that an ARP reply announces,
or the source address of an IPv4 frame as the forwarder has left it. -/
def announced (now : UInt64) (f : Frame) : UInt32 :=
  if f.HasType etherTypeIpv4 then ((g.handle rte now).run f).mem.ipv4Src
  else ((g.handle rte now).run f).val.1.learnedIp

/-- The address for which a frame has to wait, or `0`. -/
def waitIp (now : UInt64) (f : Frame) : UInt32 :=
  if ((g.handle rte now).run f).val.1.result = .pendingArp then
    ((g.handle rte now).run f).val.1.arpWaitIp
  else 0

/-- What the gateway decides about a frame, with `buf` for a probe. -/
def verdict (now : UInt64) (f : Frame) (buf : Option Frame) : Verdict where
  answered := decide ((g.handle rte now).run f).val.1.result.IsTx
  waitIp := g.waitIp rte now f
  probe := decide (g.waitIp rte now f ≠ 0 ∧ ¬Worker.NoProbeBuf buf)
  announced := g.announced rte now f
  resolved := decide (g.announced rte now f ≠ 0) &&
    (((g.handle rte now).run f).val.2.neighbors.lookup (g.announced rte now f)).isSome

/-- What the gateway decides about the frames of a burst, one after the other. -/
def verdicts (now : UInt64) : VioletGW → List (Frame × Option Frame) → List Verdict
  | _, [] => []
  | g, (f, buf) :: rest => g.verdict rte now f buf :: verdicts now ((g.handle rte now).run f).val.2 rest

variable {g}

/-- What happens to a frame depends on the queues only through the address reported. -/
theorem handle_sameCore {g' : VioletGW} (h : g.SameCore g') (now : UInt64) (f : Frame) :
    ((g'.handle rte now).run f).mem = ((g.handle rte now).run f).mem ∧
      ((g'.handle rte now).run f).val.1.result = ((g.handle rte now).run f).val.1.result ∧
      ((g'.handle rte now).run f).val.1.arpWaitIp = ((g.handle rte now).run f).val.1.arpWaitIp ∧
      (¬f.HasType etherTypeIpv4 → ((g'.handle rte now).run f).val.1.learnedIp =
        ((g.handle rte now).run f).val.1.learnedIp) ∧
      ((g.handle rte now).run f).val.2.SameCore ((g'.handle rte now).run f).val.2 := by
  obtain ⟨fcfg, acfg, sessions, upstreams, neighbors, P, L⟩ := g
  obtain ⟨fcfg', acfg', sessions', upstreams', neighbors', P', L'⟩ := g'
  -- only the queues and the times of the probes are left to differ
  obtain ⟨rfl, rfl, rfl, rfl, rfl⟩ := h
  simp only [handle, Traced.bind_val, Traced.bind_mem, Traced.ite_val, Traced.ite_mem, ethertype_mem]
  split_ifs with harp hipv4
  · exact ⟨rfl, rfl, rfl, fun _ => rfl, rfl, rfl, rfl, rfl, rfl⟩
  · have htype : f.HasType etherTypeIpv4 := by
      rw [ethertype_val] at hipv4
      split_ifs at hipv4 with hlen
      · exact ⟨hlen, hipv4⟩
      · exact absurd hipv4 (by decide)
    simp only [handleIpv4, forwarder, forwardState]
    simp only [Traced.bind_val, Traced.bind_mem, Traced.ite_val, Traced.ite_mem, Traced.pure_val,
      Traced.pure_mem, ite_self, passiveLearnIpv4_mem, ipv4SrcBe_mem]
    refine ⟨trivial, ?_⟩
    split_ifs <;> exact ⟨rfl, rfl, fun hne => absurd htype hne, rfl, rfl, rfl, rfl, rfl⟩
  · exact ⟨rfl, rfl, rfl, fun _ => rfl, rfl, rfl, rfl, rfl, rfl⟩

theorem verdict_sameCore {g' : VioletGW} (h : g.SameCore g') (now : UInt64) (f : Frame)
    (buf : Option Frame) : g'.verdict rte now f buf = g.verdict rte now f buf := by
  obtain ⟨hmem, hresult, hwait, hlearned, hcore⟩ := handle_sameCore rte h now f
  have hannounced : g'.announced rte now f = g.announced rte now f := by
    rw [announced, announced]
    split_ifs with htype
    · rw [hmem]
    · exact hlearned htype
  have hwaitIp : g'.waitIp rte now f = g.waitIp rte now f := by
    rw [waitIp, waitIp, hresult, hwait]
  rw [verdict, verdict, hannounced, hwaitIp, hcore.neighbors]
  simp only [hresult]

theorem verdicts_sameCore (now : UInt64) (burst : List (Frame × Option Frame)) :
    ∀ {g g' : VioletGW}, g.SameCore g' → verdicts rte now g' burst = verdicts rte now g burst := by
  induction burst with
  | nil => exact fun _ => rfl
  | cons x burst ih =>
      intro g g' h
      obtain ⟨-, -, -, -, hcore⟩ := handle_sameCore rte h now x.1
      rw [verdicts, verdicts, verdict_sameCore rte h, ih hcore]

/-- The address reported is the one announced, unless no packets wait for that. -/
theorem learnedIp_cases (h : g.sessions.Inv) (now : UInt64) (f : Frame) :
    ((g.handle rte now).run f).val.1.learnedIp = g.announced rte now f ∨
      (((g.handle rte now).run f).val.1.learnedIp = 0 ∧
        g.arpPending.lookup (g.announced rte now f) = none) := by
  have hstep := g.handle_cases rte h now f
  rw [announced]
  generalize (g.handle rte now).run f = r at hstep ⊢
  obtain ⟨⟨o, g'⟩, f', log⟩ := r
  dsimp only at hstep ⊢
  cases hstep with
  | other hnot => exact Or.inl (if_neg hnot).symm
  | arp hnot _ => exact Or.inl (if_neg hnot).symm
  | ipv4 htype _ =>
      rw [if_pos htype]
      dsimp only
      rw [reported]
      split_ifs with hqueued
      · exact Or.inl rfl
      · by_cases hzero : f'.ipv4Src = 0
        · exact Or.inl hzero.symm
        · refine Or.inr ⟨rfl, Option.not_isSome_iff_eq_none.mp ?_⟩
          exact fun hsome => hqueued ⟨hzero, hsome⟩

end VioletGW

/-! ## Counting -/

namespace Verdict

variable (ip : UInt32) (vs : List Verdict) (x : Verdict)

/-- How many of the frames have to wait for `ip`. -/
def held : Nat := vs.countP fun x => x.waitIp = ip

/-- One of the frames announces `ip`. -/
def announces : Bool := vs.any fun x => x.announced = ip

/-- How many frames have to wait for `ip` before it is announced for the first time. -/
def heldBefore : Nat := held ip (vs.takeWhile fun x => x.announced ≠ ip)

/-- How many have to wait for it from then on. -/
def heldAfter : Nat := held ip (vs.dropWhile fun x => x.announced ≠ ip)

/-- The resolved addresses that are announced. -/
def released : Finset UInt32 := ((vs.filter (·.resolved)).map (·.announced)).toFinset

theorem announces_concat :
    announces ip (vs ++ [x]) = true ↔ announces ip vs = true ∨ x.announced = ip := by
  simp [announces]

theorem held_cons : held ip (x :: vs) = held ip vs + if x.waitIp = ip then 1 else 0 := by
  simp [held, List.countP_cons]

theorem held_concat : held ip (vs ++ [x]) = held ip vs + if x.waitIp = ip then 1 else 0 := by
  simp [held, List.countP_singleton]

theorem heldBefore_concat :
    heldBefore ip (vs ++ [x]) =
      heldBefore ip vs + if x.waitIp = ip ∧ announces ip (vs ++ [x]) = false then 1 else 0 := by
  rw [heldBefore, heldBefore]
  induction vs with
  | nil =>
      by_cases hx : x.announced = ip
      · simp [held, announces, hx]
      · simp [held, announces, hx, List.countP_singleton]
  | cons y vs ih =>
      by_cases hy : y.announced = ip
      · simp [announces, hy]
      · have hany : announces ip (y :: vs ++ [x]) = announces ip (vs ++ [x]) := by
          simp [announces, hy]
        rw [hany, List.cons_append, List.takeWhile_cons_of_pos (by simpa using hy),
          List.takeWhile_cons_of_pos (by simpa using hy), held_cons, held_cons, ih]
        omega

theorem heldAfter_concat :
    heldAfter ip (vs ++ [x]) =
      heldAfter ip vs + if x.waitIp = ip ∧ announces ip (vs ++ [x]) = true then 1 else 0 := by
  rw [heldAfter, heldAfter]
  induction vs with
  | nil =>
      by_cases hx : x.announced = ip
      · simp [held, announces, hx, List.countP_singleton]
      · simp [held, announces, hx]
  | cons y vs ih =>
      by_cases hy : y.announced = ip
      · have hany : announces ip (y :: vs ++ [x]) = true := by
          simp [announces, hy]
        have hdrop : ∀ zs, (y :: zs).dropWhile (fun x => decide (x.announced ≠ ip)) = y :: zs :=
          fun zs => List.dropWhile_cons_of_neg (by simpa using hy)
        rw [hany, List.cons_append, hdrop, hdrop, ← List.cons_append, held_concat]
        simp
      · have hany : announces ip (y :: vs ++ [x]) = announces ip (vs ++ [x]) := by
          simp [announces, hy]
        rw [hany, List.cons_append, List.dropWhile_cons_of_pos (by simpa using hy),
          List.dropWhile_cons_of_pos (by simpa using hy), ih]

theorem heldAfter_eq_zero (h : announces ip vs = false) : heldAfter ip vs = 0 := by
  rw [heldAfter, List.dropWhile_eq_nil_iff.mpr]
  · rfl
  · intro y hy
    simpa using List.any_eq_false.mp h y hy

theorem released_concat :
    released (vs ++ [x]) = if x.resolved then insert x.announced (released vs) else released vs := by
  rw [released, released, List.filter_append, List.map_append, List.toFinset_append]
  split_ifs with hres
  · simp [hres, Finset.union_comm]
  · simp [hres]

end Verdict

namespace Worker

variable (w : Worker) (now : UInt64)

/-- The packets in time that wait for `ip` after the frames `vs`, if none of them has released any. As
long as `ip` is not announced, overdue packets take up room in its queue. -/
def backlog (ip : UInt32) (vs : List Verdict) : Nat :=
  min Config.arpPendingMaxPerIp
    ((inTime now (w.queue ip)).length +
      min (Verdict.heldBefore ip vs) (Config.arpPendingMaxPerIp - (w.queue ip).length) +
        Verdict.heldAfter ip vs)

/-- The addresses for which the frames send a probe: one for each address not probed recently. -/
def probed (vs : List Verdict) : Finset UInt32 :=
  ((vs.filter fun x => x.probe && !w.probedRecently x.waitIp now).map (·.waitIp)).toFinset

/-- What the frames put into the transmit array if there is room for everything: the frames that are
transmitted at once, the probes, and the packets released. -/
def demand (vs : List Verdict) : Nat :=
  vs.countP (·.answered) + (w.probed now vs).card +
    ∑ ip ∈ Verdict.released vs, w.backlog now ip vs

/-- The overdue packets that are still in the queue of `ip` after the frames `vs`. -/
def stale (ip : UInt32) (vs : List Verdict) : Nat :=
  if Verdict.announces ip vs then 0 else (w.queue ip).length - (inTime now (w.queue ip)).length

/-! ## One more frame -/

section Concat

variable {ip : UInt32} {vs : List Verdict} {x : Verdict}

theorem backlog_concat_of_ne (h : x.waitIp ≠ ip) :
    w.backlog now ip (vs ++ [x]) = w.backlog now ip vs := by
  simp [backlog, Verdict.heldBefore_concat, Verdict.heldAfter_concat, h]

theorem inTime_length_le (q : List ArpPendingEntry) : (inTime now q).length ≤ q.length :=
  List.length_filter_le _ _

/-- A frame that has to wait finds room unless the queue is full. -/
theorem backlog_concat_self (hlen : (w.queue ip).length ≤ Config.arpPendingMaxPerIp)
    (h : x.waitIp = ip) :
    w.backlog now ip (vs ++ [x]) =
      if w.backlog now ip vs + (if x.announced = ip then 0 else w.stale now ip vs) ≥
          Config.arpPendingMaxPerIp then
        w.backlog now ip vs
      else w.backlog now ip vs + 1 := by
  have hlive := inTime_length_le now (w.queue ip)
  have hafter := Verdict.heldAfter_eq_zero ip vs
  have hconcat := Verdict.announces_concat ip vs x
  rw [stale]
  simp only [backlog, Verdict.heldBefore_concat, Verdict.heldAfter_concat, h, true_and]
  cases hann : Verdict.announces ip (vs ++ [x]) with
  | true =>
      rcases hconcat.mp hann with hvs | hx
      · simp only [hvs, if_true, ite_self, Bool.true_eq_false, if_false]
        split_ifs <;> omega
      · simp only [hx, if_true, Bool.true_eq_false, if_false]
        split_ifs <;> omega
  | false =>
      have hvs : Verdict.announces ip vs = false := by
        rw [Bool.eq_false_iff] at hann ⊢
        exact fun h => hann (hconcat.mpr (Or.inl h))
      have hx : x.announced ≠ ip := by
        rw [Bool.eq_false_iff] at hann
        exact fun h => hann (hconcat.mpr (Or.inr h))
      have hzero := hafter hvs
      simp only [hvs, hx, if_false, if_true, Bool.false_eq_true]
      split_ifs <;> omega

theorem stale_concat :
    w.stale now ip (vs ++ [x]) = if x.announced = ip then 0 else w.stale now ip vs := by
  have hconcat := Verdict.announces_concat ip vs x
  rw [stale, stale]
  split_ifs <;> simp_all

theorem probed_concat (vs : List Verdict) (x : Verdict) :
    w.probed now (vs ++ [x]) =
      if x.probe && !w.probedRecently x.waitIp now then insert x.waitIp (w.probed now vs)
      else w.probed now vs := by
  rw [probed, probed, List.filter_append, List.map_append, List.toFinset_append]
  split_ifs with h
  · simp [h, Finset.union_comm]
  · simp [h]

/-- What one more frame asks for, if it does not wait for an address that is resolved. -/
theorem demand_concat (h : ∀ ip ∈ Verdict.released (vs ++ [x]), x.waitIp ≠ ip) :
    w.demand now (vs ++ [x]) = w.demand now vs + (if x.answered then 1 else 0) +
      (if (x.probe && !w.probedRecently x.waitIp now) ∧ x.waitIp ∉ w.probed now vs then 1 else 0) +
      (if x.resolved ∧ x.announced ∉ Verdict.released vs then w.backlog now x.announced vs else 0) := by
  have hbacklog : ∑ ip ∈ Verdict.released (vs ++ [x]), w.backlog now ip (vs ++ [x]) =
      ∑ ip ∈ Verdict.released (vs ++ [x]), w.backlog now ip vs :=
    Finset.sum_congr rfl fun ip hip => w.backlog_concat_of_ne now (h ip hip)
  have hprobes : (w.probed now (vs ++ [x])).card = (w.probed now vs).card +
      if (x.probe && !w.probedRecently x.waitIp now) ∧ x.waitIp ∉ w.probed now vs then 1 else 0 := by
    rw [probed_concat]
    by_cases hprobe : (x.probe && !w.probedRecently x.waitIp now) = true
    · by_cases hmem : x.waitIp ∈ w.probed now vs
      · simp [hprobe, hmem]
      · simp [hprobe, hmem, Finset.card_insert_of_notMem]
    · simp [hprobe]
  have hreleased : ∑ ip ∈ Verdict.released (vs ++ [x]), w.backlog now ip vs =
      ∑ ip ∈ Verdict.released vs, w.backlog now ip vs +
        if x.resolved ∧ x.announced ∉ Verdict.released vs then w.backlog now x.announced vs else 0 := by
    rw [Verdict.released_concat]
    by_cases hres : x.resolved = true
    · by_cases hmem : x.announced ∈ Verdict.released vs
      · simp [hres, hmem]
      · simp [hres, hmem, Finset.sum_insert hmem, Nat.add_comm]
    · simp [hres]
  rw [demand, demand, hbacklog, hprobes, hreleased, List.countP_append, List.countP_singleton]
  omega

end Concat

end Worker

end VioletGateway
