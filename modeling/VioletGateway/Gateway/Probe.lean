import VioletGateway.Gateway.ArpExchange
import VioletGateway.Gateway.Clock

/-!
# ARP probes

`maybe_probe_arp` sends at most one request for an address in every probe interval. The times of the
last probes are kept in a map that is never cleaned; what the map has to say is what was really put
into the transmit array, so the probes are counted there: a probe for `ip` is a frame in `tx` that is
an ARP request for `ip` (`Frame.Asks`). Nothing else that the worker sends looks like one, and the
recorded time of `ip` is the time of the last of them (`ProbeHistory`).

From this follow the rate limit and its converse: an address that a packet waits for has been asked
for during the last interval, or there was no buffer or no room, and then the next packet tries again
(`probes_rate_limited`).
-/

set_option autoImplicit false

namespace VioletGateway

open Support

/-! ## Frames that ask for an address -/

namespace Frame

variable {f : Frame} {ip : UInt32}

/-- The frame is an ARP request for `ip`. -/
def Asks (ip : UInt32) (f : Frame) : Prop :=
  (parseArp.run f).val.isOk = true ∧
    beToCpu16 (f.u16 (kEthHdrLen + ArpHdr.opcode)) = arpOpRequest ∧
    f.u32 (kEthHdrLen + ArpHdr.tip) = ip

instance (ip : UInt32) (f : Frame) : Decidable (f.Asks ip) :=
  inferInstanceAs (Decidable (_ ∧ _ ∧ _))

theorem IsArp.asks_iff {F : ArpFields} (h : f.IsArp F) (hop : F.opcode = arpOpRequest) :
    f.Asks ip ↔ F.tip = ip := by
  have hok : (parseArp.run f).val.isOk = true := by
    rw [h.parse]
    rfl
  have hopcode : beToCpu16 (f.u16 (kEthHdrLen + ArpHdr.opcode)) = arpOpRequest := by
    rw [h.opcode, beToCpu16_cpuToBe16, hop]
  rw [Asks, h.tip]
  exact ⟨fun hasks => hasks.2.2, fun htip => ⟨hok, hopcode, htip⟩⟩

/-- A UDP frame asks for nothing. -/
theorem Accepts.not_asks (h : f.Accepts) : ¬f.Asks ip := by
  rintro ⟨hok, -⟩
  cases hparse : (parseArp.run f).val with
  | error e =>
      rw [hparse] at hok
      cases hok
  | ok v =>
      have htype := (hasType_of_parseArp hparse).2
      exact absurd (htype.symm.trans h.1.ether) (by decide)

/-- Neither does an ARP reply. -/
theorem not_asks_of_reply (h : f.u16 (kEthHdrLen + ArpHdr.opcode) = cpuToBe16 arpOpReply) :
    ¬f.Asks ip := by
  rintro ⟨-, hop, -⟩
  rw [h, beToCpu16_cpuToBe16] at hop
  exact absurd hop (by decide)

end Frame

/-! ## Frames that are sent at once -/

/-- A frame that the forwarder does not drop still parses. -/
theorem Forwarder.HandleStep.accepts {σ : Type} {rte : Rte} {fw : Forwarder σ}
    {st st' : ForwardState σ} {now : UInt64} {f f' : Frame} {o : HandleOutcome}
    (hstep : fw.HandleStep rte st now f o st' f') (hres : o.result ≠ .drop) : f'.Accepts := by
  have hsend : ∀ {f₁ : Frame}, f₁.Accepts → ∀ (hop : Option EtherAddr) (srcIp dstIp : UInt32)
      (srcPort dstPort : UInt16) (recompute : Bool),
      (fw.sendFrame hop (f₁.natted rte srcIp dstIp srcPort dstPort recompute)).Accepts := by
    intro f₁ hacc hop srcIp dstIp srcPort dstPort recompute
    have hnat := (Frame.sameShape_natted hacc.1.ihl_ge rte srcIp dstIp srcPort dstPort
      recompute).accepts hacc
    cases hop with
    | none => exact hnat
    | some mac => exact (hnat.withL2 fw.cfg.gatewayMac mac).1
  cases hstep with
  | ignored => exact absurd rfl hres
  | refused => exact absurd rfl hres
  | unknown => exact absurd rfl hres
  | forward hvip _ _ _ => exact hsend hvip.1.accepts _ _ _ _ _ _
  | reverse hgw _ _ => exact hsend hgw.1.accepts _ _ _ _ _ _

/-- A frame that the ARP handler sends is a reply. -/
theorem ArpConfig.handle_sends_reply (cfg : ArpConfig) (N : NeighborTable) (now : UInt64) (f : Frame)
    (hres : ((cfg.handle N now).run f).val.1.result = .txArp) :
    ((cfg.handle N now).run f).mem.u16 (kEthHdrLen + ArpHdr.opcode) = cpuToBe16 arpOpReply := by
  rw [ArpConfig.handle] at hres ⊢
  simp only [Traced.bind_val, Traced.bind_mem, parseArp_mem] at hres ⊢
  cases hparse : (parseArp.run f).val with
  | error e =>
      rw [hparse] at hres
      cases hres
  | ok v =>
      obtain rfl := (parseArp_ok hparse).2
      simp only [hparse, Traced.bind_val, Traced.bind_mem, read16_val, read16_mem, Traced.ite_val,
        Traced.ite_mem] at hres ⊢
      split_ifs at hres ⊢ with hreq hreply
      · rw [handleRequest] at hres ⊢
        simp only [Traced.bind_val, Traced.bind_mem, read32_val, read32_mem, Traced.ite_val,
          Traced.ite_mem, Traced.pure_val, Traced.pure_mem] at hres ⊢
        split_ifs at hres ⊢
        · rw [makeReply]
          simp only [Traced.bind_mem, Traced.pure_mem, setDataLen_mem, write16_mem, write32_mem,
            writeMac_mem, readMac_val, readMac_mem, read32_val, read32_mem]
          simp (disch := decide) [Frame.u16_put]
      · rw [handleReply] at hres
        simp only [Traced.bind_val, read32_val, read32_mem, readMac_val, Traced.ite_val,
          Traced.pure_val] at hres
        split_ifs at hres

namespace VioletGW

variable {rte : Rte} {g : VioletGW}

theorem handle_of_arp_mem (now : UInt64) {f : Frame} (h : f.HasType etherTypeArp) :
    ((g.handle rte now).run f).mem = ((g.acfg.handle g.neighbors now).run f).mem := by
  rw [handle]
  simp only [Traced.bind_mem, ethertype_mem, ethertype_val, if_pos h.1, if_pos h.2]
  rfl

theorem handle_of_other (now : UInt64) {f : Frame} (harp : ¬f.HasType etherTypeArp)
    (hipv4 : ¬f.HasType etherTypeIpv4) : ((g.handle rte now).run f).val.1 = {} := by
  rw [handle]
  simp only [Traced.bind_val, ethertype_mem, ethertype_val, Traced.ite_val, Traced.pure_val]
  split_ifs with hlen h₁ h₂ h₃ h₄
  · exact absurd ⟨hlen, h₁⟩ harp
  · exact absurd ⟨hlen, h₂⟩ hipv4
  · rfl
  · exact absurd h₃ (by decide)
  · exact absurd h₄ (by decide)
  · rfl

/-- No frame that the gateway sends at once asks for an address. -/
theorem handle_not_asks (hinv : g.sessions.Inv) (now : UInt64) (f : Frame) (ip : UInt32)
    (hres : ((g.handle rte now).run f).val.1.result.IsTx) :
    ¬((g.handle rte now).run f).mem.Asks ip := by
  by_cases hipv4 : f.HasType etherTypeIpv4
  · have hstep := g.handle_cases rte hinv now f
    generalize (g.handle rte now).run f = r at hstep hres ⊢
    obtain ⟨⟨o, g'⟩, f', log⟩ := r
    dsimp only at hstep hres ⊢
    cases hstep with
    | other hnot => exact absurd hipv4 hnot
    | arp hnot => exact absurd hipv4 hnot
    | ipv4 _ hfwd =>
        refine (hfwd.accepts fun hdrop => ?_).not_asks
        rw [hdrop] at hres
        exact hres
  · by_cases harp : f.HasType etherTypeArp
    · have hval := g.handle_of_arp rte now harp
      rw [hval] at hres
      rw [handle_of_arp_mem now harp]
      refine Frame.not_asks_of_reply (g.acfg.handle_sends_reply g.neighbors now f ?_)
      have hstep := g.acfg.handle_cases g.neighbors now f
      have hresult : ((g.handleArp now).run f).val.1.result =
          ((g.acfg.handle g.neighbors now).run f).val.1.result := rfl
      rw [hresult] at hres
      generalize (g.acfg.handle g.neighbors now).run f = r at hstep hres ⊢
      obtain ⟨⟨o, N⟩, f', log⟩ := r
      cases hstep with
      | dropped => exact absurd hres id
      | answered => rfl
      | learned => exact absurd hres id
    · rw [handle_of_other now harp hipv4] at hres
      exact absurd hres id

end VioletGW

namespace Worker

variable (rte : Rte) {w : Worker}

/-! ## One call of `maybe_probe_arp` -/

/-- There is no buffer for a probe, or it has no room for one. -/
def NoProbeBuf (buf : Option Frame) : Prop := ∀ f, buf = some f → f.room < kArpFrameLen.toNat

instance (buf : Option Frame) : Decidable (NoProbeBuf buf) :=
  match buf with
  | none => isTrue nofun
  | some f => decidable_of_iff (f.room < kArpFrameLen.toNat)
      ⟨fun h _ hf => Option.some.inj hf ▸ h, fun h => h f rfl⟩

/-- What `maybe_probe_arp` does for an address that is not zero: it is too early for a probe; there is
no buffer or no room, and nothing is recorded; or a probe is sent and its time recorded. -/
inductive ProbeOutcome (ip : UInt32) (now : UInt64) (buf : Option Frame) (cap : Nat) (w w' : Worker) :
    Prop
  | early (hrecent : w.probedRecently ip now = true) (htx : w'.tx = w.tx)
      (hlast : w'.gw.arpProbeLastMs = w.gw.arpProbeLastMs)
  | failed (hrecent : w.probedRecently ip now = false) (hwhy : NoProbeBuf buf ∨ cap ≤ w.tx.n)
      (htx : w'.tx = w.tx) (hlast : w'.gw.arpProbeLastMs = w.gw.arpProbeLastMs)
  | sent (hrecent : w.probedRecently ip now = false) (hbuf : ¬NoProbeBuf buf) (hroom : w.tx.n < cap)
      (m : Mbuf)
      (hm : ∀ ip', m.frame.Asks ip' ↔ ip = ip') (htx : w'.tx = w.tx.push m)
      (hlast : w'.gw.arpProbeLastMs = w.gw.arpProbeLastMs.insert ip now)

theorem maybeProbeArp_outcome (w : Worker) {ip : UInt32} (hip : ip ≠ 0) (now : UInt64)
    (buf : Option Frame) (cap : Nat) :
    ProbeOutcome ip now buf cap w (w.maybeProbeArp ip now buf cap) := by
  unfold maybeProbeArp
  rw [if_neg hip]
  cases hrecent : w.probedRecently ip now with
  | true => exact .early hrecent rfl rfl
  | false =>
      rw [if_neg (by decide)]
      cases buf with
      | none => exact .failed hrecent (Or.inl nofun) rfl rfl
      | some f =>
          have hroom := w.gw.acfg.makeRequest_val_iff ip f
          cases hmade : ((w.gw.acfg.makeRequest ip).run (f.setLen 0)).val with
          | false =>
              rw [hmade] at hroom
              have hnone : w.makeRequest ip (some f) = (none, w.acquire.free
                  ⟨w.pool.next, ((w.gw.acfg.makeRequest ip).run (f.setLen 0)).mem⟩) :=
                if_neg (Bool.eq_false_iff.mp hmade)
              rw [hnone]
              refine .failed hrecent (Or.inl ?_) rfl rfl
              intro f' hf'
              obtain rfl := Option.some.inj hf'
              exact Nat.not_le.mp fun hle => absurd (hroom.mpr hle) (by decide)
          | true =>
              have hsome : w.makeRequest ip (some f) = (some
                  ⟨w.pool.next, ((w.gw.acfg.makeRequest ip).run (f.setLen 0)).mem⟩, w.acquire) :=
                if_pos hmade
              rw [hsome]
              dsimp only
              split_ifs with hfull
              · exact .failed hrecent (Or.inr hfull) rfl rfl
              · have hbuf : ¬NoProbeBuf (some f) := fun h =>
                  absurd (h f rfl) (Nat.not_lt.mpr (hroom.mp hmade))
                refine .sent hrecent hbuf (Nat.not_le.mp hfull) _ (fun ip' => ?_) rfl rfl
                exact (w.gw.acfg.makeRequest_isArp ip hmade).asks_iff rfl

/-- Whether a probe is due depends on the recorded time only. -/
theorem probedRecently_congr {w w' : Worker} {ip : UInt32}
    (h : w'.gw.arpProbeLastMs.lookup ip = w.gw.arpProbeLastMs.lookup ip) (now : UInt64) :
    w'.probedRecently ip now = w.probedRecently ip now := by
  simp only [probedRecently]
  rw [h]

/-- The outcome is the same for a worker with the same array and the same recorded times. -/
theorem ProbeOutcome.of_same {ip : UInt32} {now : UInt64} {buf : Option Frame} {cap : Nat}
    {w w₁ w' : Worker} (h : ProbeOutcome ip now buf cap w₁ w') (htx : w₁.tx = w.tx)
    (hlast : w₁.gw.arpProbeLastMs = w.gw.arpProbeLastMs) : ProbeOutcome ip now buf cap w w' := by
  have hrecent := probedRecently_congr (congrArg (AList.lookup ip) hlast) now
  cases h with
  | early h h' h'' => exact .early (hrecent ▸ h) (h'.trans htx) (h''.trans hlast)
  | failed h hwhy h' h'' =>
      refine .failed (hrecent ▸ h) ?_ (h'.trans htx) (h''.trans hlast)
      rw [← htx]
      exact hwhy
  | sent h hbuf hroom m hm h' h'' =>
      exact .sent (hrecent ▸ h) hbuf (htx ▸ hroom) m hm (htx ▸ h') (hlast ▸ h'')

/-! ## One received frame -/

/-- What a flush puts into the transmit array are UDP frames. -/
theorem flushLearned_tx (hqueue : ∀ ip, ∀ e ∈ w.queue ip, e.m.frame.Accepts) (o : HandleOutcome)
    (now : UInt64) (cap : Nat) :
    ∃ flushed, (w.flushLearned rte o now cap).tx.items = w.tx.items ++ flushed ∧
      ∀ m ∈ flushed, m.frame.Accepts := by
  rcases w.flushLearned_cases rte o now with hidle | hloop
  · rw [hidle]
    exact ⟨[], (List.append_nil _).symm, nofun⟩
  · rw [hloop, storeRemaining_tx]
    cases hmac : w.gw.neighbors.lookup o.learnedIp with
    | none =>
        obtain ⟨-, htx, -⟩ :=
          foldl_flushEntry_unresolved rte now cap _ (hqueue o.learnedIp) w [] hmac
        rw [htx]
        exact ⟨[], (List.append_nil _).symm, nofun⟩
    | some mac =>
        obtain ⟨-, htx, -⟩ := foldl_flushEntry_resolved rte now cap _ (hqueue o.learnedIp) w [] hmac
        refine ⟨_, htx, ?_⟩
        intro m hm
        obtain ⟨e, he, rfl⟩ := List.mem_map.mp hm
        obtain ⟨e₀, he₀, rfl⟩ := List.mem_map.mp (List.mem_of_mem_take he)
        exact ((hqueue _ e₀ (List.mem_of_mem_filter he₀)).withL2 _ _).1

/-- The worker `w'` follows on `w` by a frame at `now` that leads to no probe for `ip`, or to one. -/
inductive Probes (ip : UInt32) (now : UInt64) (w w' : Worker) : Prop
  | none (sent : List Mbuf) (htx : w'.tx.items = w.tx.items ++ sent)
      (hsent : ∀ m ∈ sent, ¬m.frame.Asks ip)
      (hlast : w'.gw.arpProbeLastMs.lookup ip = w.gw.arpProbeLastMs.lookup ip)
  | one (sent : List Mbuf) (m : Mbuf) (htx : w'.tx.items = w.tx.items ++ (sent ++ [m]))
      (hsent : ∀ m ∈ sent, ¬m.frame.Asks ip) (hm : m.frame.Asks ip)
      (hlast : w'.gw.arpProbeLastMs.lookup ip = some now)
      (hrecent : w.probedRecently ip now = false)

/-- A call for one address, seen by any other. -/
theorem ProbeOutcome.probes {ip : UInt32} {now : UInt64} {buf : Option Frame} {cap : Nat}
    {w w' : Worker} (h : ProbeOutcome ip now buf cap w w') (ip' : UInt32) :
    Probes ip' now w w' := by
  have hidle : ∀ {w' : Worker}, w'.tx = w.tx → w'.gw.arpProbeLastMs = w.gw.arpProbeLastMs →
      Probes ip' now w w' := by
    intro w' htx hlast
    refine .none [] ?_ nofun (congrArg _ hlast)
    rw [htx, List.append_nil]
  cases h with
  | early _ htx hlast => exact hidle htx hlast
  | failed _ _ htx hlast => exact hidle htx hlast
  | sent hrecent _ _ m hm htx hlast =>
      have hitems : w'.tx.items = w.tx.items ++ ([] ++ [m]) := congrArg OutArray.items htx
      by_cases hip : ip = ip'
      · obtain rfl := hip
        refine .one [] m hitems nofun ((hm ip).mpr rfl) ?_ hrecent
        rw [hlast]
        exact AList.lookup_insert _
      · refine .none [m] hitems ?_ ?_
        · intro k hk
          rw [List.mem_singleton.mp hk, hm]
          exact hip
        · rw [hlast]
          exact AList.lookup_insert_ne (Ne.symm hip)

/-- What comes before, if it sends no probe, does not matter. -/
theorem Probes.of_sent {ip : UInt32} {now : UInt64} {w w₁ w' : Worker} (h : Probes ip now w₁ w')
    {flushed : List Mbuf} (htx : w₁.tx.items = w.tx.items ++ flushed)
    (hflushed : ∀ m ∈ flushed, ¬m.frame.Asks ip)
    (hlast : w₁.gw.arpProbeLastMs.lookup ip = w.gw.arpProbeLastMs.lookup ip) :
    Probes ip now w w' := by
  have hall : ∀ {sent : List Mbuf}, (∀ m ∈ sent, ¬m.frame.Asks ip) →
      ∀ m ∈ flushed ++ sent, ¬m.frame.Asks ip := by
    intro sent hsent m hm
    rcases List.mem_append.mp hm with hm | hm
    · exact hflushed m hm
    · exact hsent m hm
  cases h with
  | none sent h hsent h' =>
      refine .none (flushed ++ sent) ?_ (hall hsent) (h'.trans hlast)
      rw [h, htx, List.append_assoc]
  | one sent m h hsent hm h' hrecent =>
      refine .one (flushed ++ sent) m ?_ (hall hsent) hm h' ?_
      · rw [h, htx, List.append_assoc, List.append_assoc]
      · rw [← probedRecently_congr hlast]
        exact hrecent

/-- What a frame that has to wait leads to. -/
theorem dispose_pending (w : Worker) {o : HandleOutcome} (hres : o.result = .pendingArp)
    (hip : o.arpWaitIp ≠ 0) (m : Mbuf) (now : UInt64) (buf : Option Frame) (cap : Nat) :
    ProbeOutcome o.arpWaitIp now buf cap w (w.dispose o m now buf cap) := by
  have hcall := maybeProbeArp_outcome (w.enqueuePending o.arpWaitIp m now) hip now buf cap
  rw [dispose, hres]
  exact hcall.of_same (w.enqueuePending_arrays o.arpWaitIp m now).tx
    (w.enqueuePending_probes o.arpWaitIp m now)

theorem dispose_probes_for (w : Worker) {o : HandleOutcome} {m : Mbuf} {ip : UInt32}
    (hm : o.result.IsTx → ¬m.frame.Asks ip) (now : UInt64) (buf : Option Frame) (cap : Nat) :
    Probes ip now w (w.dispose o m now buf cap) := by
  have hpush : o.result.IsTx → Probes ip now w (w.pushTx m) := by
    intro htx
    refine .none [m] rfl ?_ rfl
    intro k hk
    rw [List.mem_singleton.mp hk]
    exact hm htx
  cases hres : o.result with
  | pendingArp =>
      by_cases hip : o.arpWaitIp = 0
      · -- the early returns for the address zero
        unfold dispose enqueuePending maybeProbeArp
        simp only [hres, if_pos hip]
        exact .none [] (List.append_nil _).symm nofun rfl
      · exact (w.dispose_pending hres hip m now buf cap).probes ip
  | drop =>
      unfold dispose
      rw [hres]
      exact .none [] (List.append_nil _).symm nofun rfl
  | txForward | txReverse | txArp =>
      unfold dispose
      rw [hres] at hpush ⊢
      exact hpush trivial

section Frames

variable (hinv : w.gw.sessions.Inv) (hqueue : ∀ ip, ∀ e ∈ w.queue ip, e.m.frame.Accepts)

include hinv hqueue

/-- The flush after a frame sends no probe and records none. -/
theorem afterFlush_sent (m : Mbuf) (now : UInt64) (cap : Nat) :
    (∃ flushed, (w.afterFlush rte m now cap).tx.items = w.tx.items ++ flushed ∧
        ∀ k ∈ flushed, k.frame.Accepts) ∧
      (w.afterFlush rte m now cap).gw.arpProbeLastMs = w.gw.arpProbeLastMs := by
  have hstep := w.gw.handle_cases rte hinv now m.frame
  have hqueue' : ∀ ip, ∀ e ∈ ({ w with gw := ((w.gw.handle rte now).run m.frame).val.2 } :
      Worker).queue ip, e.m.frame.Accepts := by
    intro ip e he
    rw [queue, hstep.arpPending] at he
    exact hqueue ip e he
  refine ⟨flushLearned_tx rte hqueue' _ now cap, ?_⟩
  exact (flushLearned_probes _ now cap).trans hstep.arpProbeLastMs

theorem handleRx_probes_for (m : Mbuf) (now : UInt64) (buf : Option Frame) (cap : Nat)
    (ip : UInt32) : Probes ip now w (w.handleRx rte m now buf cap) := by
  obtain ⟨⟨flushed, htx, hflushed⟩, hlast⟩ := afterFlush_sent rte hinv hqueue m now cap
  refine Probes.of_sent (dispose_probes_for (w.afterFlush rte m now cap) ?_ now buf cap) htx
    (fun k hk => (hflushed k hk).not_asks) (congrArg _ hlast)
  exact VioletGW.handle_not_asks hinv now m.frame ip

/-- A frame that has to wait. -/
theorem handleRx_pending {m : Mbuf} {now : UInt64}
    (hres : ((w.gw.handle rte now).run m.frame).val.1.result = .pendingArp)
    (hip : ((w.gw.handle rte now).run m.frame).val.1.arpWaitIp ≠ 0) (buf : Option Frame)
    (cap : Nat) :
    ProbeOutcome ((w.gw.handle rte now).run m.frame).val.1.arpWaitIp now buf cap
      { w with tx := (w.afterFlush rte m now cap).tx } (w.handleRx rte m now buf cap) := by
  obtain ⟨-, hlast⟩ := afterFlush_sent rte hinv hqueue m now cap
  exact (dispose_pending (w.afterFlush rte m now cap) hres hip _ now buf cap).of_same rfl hlast

end Frames

/-! ## Steps -/

/-- The clock reading that a step uses. -/
def Event.time : Event → Option UInt64
  | .expireSessions now | .expireNeighbors now | .expirePending now | .handleNext now _ => some now
  | _ => none

/-- The frames that a step puts into the transmit array. -/
def placed (w : Worker) (e : Event) : List Mbuf := (w.step rte e).tx.items.drop w.tx.n

/-- The times of the probes for `ip` that a step puts into the transmit array. -/
def probesAt (ip : UInt32) (w : Worker) (e : Event) : List UInt64 :=
  ((w.placed rte e).filter fun m => decide (m.frame.Asks ip)).map fun _ => e.time.getD 0

theorem filter_asks_eq_nil {ip : UInt32} {sent : List Mbuf} (h : ∀ m ∈ sent, ¬m.frame.Asks ip) :
    sent.filter (fun m => decide (m.frame.Asks ip)) = [] := by
  rw [List.filter_eq_nil_iff]
  intro m hm
  rw [decide_eq_true_eq]
  exact h m hm

/-- The probes of a step, and the recorded time afterwards. -/
inductive StepProbes (ip : UInt32) (w : Worker) (e : Event) : Prop
  | none (hprobes : w.probesAt rte ip e = [])
      (hlast : (w.step rte e).gw.arpProbeLastMs.lookup ip = w.gw.arpProbeLastMs.lookup ip)
  | one (now : UInt64) (htime : e.time = some now) (hprobes : w.probesAt rte ip e = [now])
      (hlast : (w.step rte e).gw.arpProbeLastMs.lookup ip = some now)
      (hrecent : w.probedRecently ip now = false)

variable {rte} in
theorem Probes.stepProbes {ip : UInt32} {now : UInt64} {e : Event} (htime : e.time = some now)
    (h : Probes ip now w (w.step rte e)) : StepProbes rte ip w e := by
  cases h with
  | none sent htx hsent hlast =>
      refine .none ?_ hlast
      rw [probesAt, placed, OutArray.n, htx, List.drop_left, filter_asks_eq_nil hsent]
      rfl
  | one sent m htx hsent hm hlast hrecent =>
      refine .one now htime ?_ hlast hrecent
      rw [probesAt, placed, OutArray.n]
      rw [htx, List.drop_left, List.filter_append, filter_asks_eq_nil hsent,
        List.nil_append, List.filter_singleton, decide_eq_true hm, htime]
      rfl

theorem step_handleNext {m : Mbuf} {rest : List Mbuf} (hrx : w.rx = m :: rest) (now : UInt64)
    (buf : Option Frame) :
    w.step rte (.handleNext now buf) =
      ({ w with rx := rest } : Worker).handleRx rte m now buf Config.ioRxBurst := by
  simp only [step, hrx]

theorem step_probes {cfg : ServiceConfig} (h : w.Sound cfg) (ip : UInt32) (e : Event) :
    StepProbes rte ip w e := by
  have hidle : (w.step rte e).tx = w.tx → (w.step rte e).gw.arpProbeLastMs = w.gw.arpProbeLastMs →
      StepProbes rte ip w e := by
    intro htx hlast
    refine .none ?_ (congrArg _ hlast)
    rw [probesAt, placed, OutArray.n, htx, List.drop_length]
    rfl
  cases e with
  | expireSessions now => exact hidle rfl rfl
  | expireNeighbors now => exact hidle rfl rfl
  | expirePending now => exact hidle rfl rfl
  | pollControl update => cases update <;> exact hidle rfl rfl
  | setUpstreams endpoints => exact hidle rfl rfl
  | setPolicy policy => exact hidle rfl rfl
  | recvBurst frames => exact hidle rfl rfl
  | finishBurst accepted =>
      refine .none ?_ rfl
      rw [probesAt, placed]
      show ((([] : List Mbuf).drop _).filter _).map _ = []
      rw [List.drop_nil]
      rfl
  | handleNext now buf =>
      cases hrx : w.rx with
      | nil =>
          have hstay : w.step rte (.handleNext now buf) = w := by simp only [step, hrx]
          exact hidle (by rw [hstay]) (by rw [hstay])
      | cons m rest =>
          apply Probes.stepProbes rfl
          have hprobes := handleRx_probes_for rte (w := { w with rx := rest }) h.1.sessions h.accepts
            m now buf Config.ioRxBurst ip
          rw [step_handleNext rte hrx now buf]
          exact hprobes.of_sent (List.append_nil _).symm (fun m hm => absurd hm List.not_mem_nil) rfl

/-! ## Runs -/

/-- The times of the probes for `ip` that a run puts into the transmit array, in order. -/
def probeTimes (ip : UInt32) (w : Worker) (es : List Event) : List UInt64 :=
  outputs (step rte) (probesAt rte ip) w es

/-- The probes for `ip` up to the time `t`: they are an interval or more apart, and the last one is
the one that is recorded. -/
structure ProbeHistory (ip : UInt32) (t : UInt64) (times : List UInt64) (w : Worker) : Prop where
  spaced : times.Pairwise fun a b => a.toNat + Config.arpProbeIntervalMs.toNat ≤ b.toNat
  last : w.gw.arpProbeLastMs.lookup ip = times.getLast?
  le : ∀ a ∈ times, a ≤ t

/-- What the test of the interval says when the recorded time is not in the future. -/
theorem probedRecently_iff {ip : UInt32} {now last : UInt64} (hle : last ≤ now)
    (hlast : w.gw.arpProbeLastMs.lookup ip = some last) :
    w.probedRecently ip now = true ↔
      now.toNat < last.toNat + Config.arpProbeIntervalMs.toNat := by
  have hiff := timeout_iff hle Config.arpProbeIntervalMs
  rw [probedRecently, hlast]
  dsimp only
  rw [decide_eq_true_eq, ← Nat.not_le, ← hiff, ge_iff_le, UInt64.not_le]

theorem ProbeHistory.mono {ip : UInt32} {t t' : UInt64} {times : List UInt64}
    (h : ProbeHistory ip t times w) (hle : t ≤ t') : ProbeHistory ip t' times w :=
  ⟨h.spaced, h.last, fun a ha => UInt64.le_trans (h.le a ha) hle⟩

/-- The test of the interval asks whether any probe was sent during the last one. -/
theorem ProbeHistory.probedRecently_iff {ip : UInt32} {t now : UInt64} {times : List UInt64}
    (h : ProbeHistory ip t times w) (hle : t ≤ now) :
    w.probedRecently ip now = true ↔
      ∃ a ∈ times, now.toNat < a.toNat + Config.arpProbeIntervalMs.toNat := by
  have hlast := h.last
  rcases List.eq_nil_or_concat times with rfl | ⟨earlier, last, rfl⟩
  · have hnever : w.probedRecently ip now = false := by
      rw [probedRecently, hlast]
      rfl
    rw [hnever]
    exact iff_of_false nofun fun ⟨a, ha, _⟩ => nomatch ha
  · rw [List.concat_eq_append] at h hlast ⊢
    rw [List.getLast?_concat] at hlast
    have hmem : last ∈ earlier ++ [last] := by simp
    rw [Worker.probedRecently_iff (UInt64.le_trans (h.le last hmem) hle) hlast]
    refine ⟨fun hlt => ⟨last, hmem, hlt⟩, ?_⟩
    rintro ⟨a, ha, hlt⟩
    rcases List.mem_append.mp ha with ha | ha
    · -- the last probe is even later
      have hspaced := (List.pairwise_append.mp h.spaced).2.2 a ha last (List.mem_singleton_self _)
      omega
    · rw [List.mem_singleton.mp ha] at hlt
      exact hlt

/-- A probe is due: all earlier ones are an interval ago. -/
theorem ProbeHistory.due {ip : UInt32} {t now : UInt64} {times : List UInt64}
    (h : ProbeHistory ip t times w) (hle : t ≤ now) (hrecent : w.probedRecently ip now = false) :
    ∀ a ∈ times, a.toNat + Config.arpProbeIntervalMs.toNat ≤ now.toNat := by
  intro a ha
  by_contra hnot
  have htrue := (h.probedRecently_iff hle).mpr ⟨a, ha, Nat.not_le.mp hnot⟩
  rw [hrecent] at htrue
  cases htrue

theorem ProbeHistory.step {cfg : ServiceConfig} {ip : UInt32} {t : UInt64} {times : List UInt64}
    (h : ProbeHistory ip t times w) (hsound : w.Sound cfg) {e : Event} {t' : UInt64} (hle : t ≤ t')
    (htime : ∀ now, e.time = some now → now = t') :
    ProbeHistory ip t' (times ++ w.probesAt rte ip e) (w.step rte e) := by
  have hold : ∀ a ∈ times, a ≤ t' := fun a ha => UInt64.le_trans (h.le a ha) hle
  cases step_probes rte hsound ip e with
  | none hprobes hlast =>
      rw [hprobes, List.append_nil]
      exact ⟨h.spaced, hlast.trans h.last, hold⟩
  | one now hnow hprobes hlast hrecent =>
      obtain rfl := htime now hnow
      rw [hprobes]
      refine ⟨?_, by rw [hlast, List.getLast?_concat], ?_⟩
      · rw [List.pairwise_append]
        refine ⟨h.spaced, List.pairwise_singleton _ _, ?_⟩
        intro a ha b hb
        rw [List.mem_singleton.mp hb]
        exact h.due hle hrecent a ha
      · intro a ha
        rcases List.mem_append.mp ha with ha | ha
        · exact hold a ha
        · rw [List.mem_singleton.mp ha]
          exact UInt64.le_refl _

theorem mem_probesAt {ip : UInt32} {e : Event} {now : UInt64} {sent : List Mbuf} {m : Mbuf}
    (htx : (w.step rte e).tx.items = w.tx.items ++ sent) (hm : m ∈ sent) (hasks : m.frame.Asks ip)
    (htime : e.time = some now) : now ∈ w.probesAt rte ip e := by
  refine List.mem_map.mpr ⟨m, List.mem_filter.mpr ⟨?_, decide_eq_true hasks⟩, ?_⟩
  · rw [placed, OutArray.n, htx, List.drop_left]
    exact hm
  · rw [htime]
    rfl

/-- After a frame that has to wait for `ip`, a probe was sent during the last interval, or there was no
buffer or no room, and nothing is recorded that would stop the next frame from trying. -/
theorem ProbeHistory.pending {cfg : ServiceConfig} {ip : UInt32} {now : UInt64}
    {times : List UInt64} (h : ProbeHistory ip now times w) (hsound : w.Sound cfg) {m : Mbuf}
    {rest : List Mbuf} (hrx : w.rx = m :: rest)
    (hres : ((w.gw.handle rte now).run m.frame).val.1.result = .pendingArp)
    (hwait : ((w.gw.handle rte now).run m.frame).val.1.arpWaitIp = ip) (hip : ip ≠ 0)
    (buf : Option Frame) :
    (∃ a ∈ times ++ w.probesAt rte ip (.handleNext now buf),
        now.toNat < a.toNat + Config.arpProbeIntervalMs.toNat) ∨
      ((NoProbeBuf buf ∨ Config.ioRxBurst ≤ (w.step rte (.handleNext now buf)).tx.n) ∧
        (w.step rte (.handleNext now buf)).gw.arpProbeLastMs.lookup ip =
          w.gw.arpProbeLastMs.lookup ip ∧
        ∀ now', now ≤ now' → (w.step rte (.handleNext now buf)).probedRecently ip now' = false) := by
  have hrefl : now ≤ now := UInt64.le_refl now
  have houtcome := handleRx_pending rte (w := { w with rx := rest }) hsound.1.sessions
    hsound.accepts hres (hwait ▸ hip) buf Config.ioRxBurst
  obtain ⟨⟨flushed, hflushed, -⟩, -⟩ := afterFlush_sent rte (w := { w with rx := rest })
    hsound.1.sessions hsound.accepts m now Config.ioRxBurst
  rw [← step_handleNext rte hrx now buf] at houtcome
  dsimp only at houtcome
  rw [hwait] at houtcome
  cases houtcome with
  | early hrecent _ _ =>
      obtain ⟨a, ha, hlt⟩ := (h.probedRecently_iff hrefl).mp hrecent
      exact Or.inl ⟨a, List.mem_append_left _ ha, hlt⟩
  | failed hrecent hwhy htx hlast =>
      have hlookup := congrArg (AList.lookup ip) hlast
      refine Or.inr ⟨?_, hlookup, ?_⟩
      · rw [htx]
        exact hwhy
      · intro now' hle
        rw [probedRecently_congr hlookup, Bool.eq_false_iff]
        intro hrecent'
        obtain ⟨a, ha, hlt⟩ := (h.probedRecently_iff hle).mp hrecent'
        have hdue := h.due hrefl hrecent a ha
        have hle' := UInt64.le_iff_toNat_le.mp hle
        omega
  | sent hrecent _ _ probe hprobe htx hlast =>
      refine Or.inl ⟨now, List.mem_append_right _ ?_, ?_⟩
      · have hitems : (w.step rte (.handleNext now buf)).tx.items =
            w.tx.items ++ (flushed ++ [probe]) := by
          rw [htx]
          show (({ w with rx := rest } : Worker).afterFlush rte m now Config.ioRxBurst).tx.items ++
            [probe] = _
          rw [hflushed, List.append_assoc]
        exact mem_probesAt rte hitems (by simp) ((hprobe ip).mpr rfl) rfl
      · have hpos : 0 < Config.arpProbeIntervalMs.toNat := by decide
        omega

theorem run_probeHistory (cfg : ServiceConfig) (shm : Option CpUpdate) (nicMac : Option EtherAddr)
    (ip : UInt32) (es : List Event) (hclock : (es.filterMap Event.time).Pairwise (· ≤ ·))
    (t : UInt64) (ht : ∀ a ∈ es.filterMap Event.time, a ≤ t) :
    ProbeHistory ip t (probeTimes rte ip (start cfg shm nicMac) es)
      (run (Worker.step rte) (start cfg shm nicMac) es) := by
  induction es using List.reverseRecOn generalizing t with
  | nil =>
      refine ⟨List.Pairwise.nil, ?_, nofun⟩
      cases nicMac <;> rfl
  | append_singleton es e ih =>
      rw [List.filterMap_append, List.pairwise_append] at hclock
      obtain ⟨hbefore, -, hlast⟩ := hclock
      have hsound : (run (Worker.step rte) (start cfg shm nicMac) es).Sound cfg :=
        run_invariant (step_sound rte) (start_sound cfg shm nicMac) es
      rw [probeTimes, outputs_concat, run_concat]
      cases htime : e.time with
      | none =>
          refine (ih hbefore t fun a ha => ht a ?_).step rte hsound (UInt64.le_refl t) ?_
          · rw [List.filterMap_append]
            exact List.mem_append_left _ ha
          · intro now hnow
            rw [htime] at hnow
            cases hnow
      | some now =>
          have hmem : now ∈ [e].filterMap Event.time := by simp [htime]
          refine ((ih hbefore now fun a ha => hlast a ha now hmem).step rte hsound
            (UInt64.le_refl now) ?_).mono (ht now ?_)
          · intro now' hnow'
            exact Option.some.inj (hnow'.symm.trans htime)
          · rw [List.filterMap_append]
            exact List.mem_append_right _ hmem

/-- An interval between probes does not end before its time, and an address that a packet waits for is
asked for once in every interval, unless there is no buffer or no room for the probe. -/
theorem probes_rate_limited (cfg : ServiceConfig) (shm : Option CpUpdate)
    (nicMac : Option EtherAddr) (ip : UInt32) (es : List Event)
    (hclock : (es.filterMap Event.time).Pairwise (· ≤ ·)) :
    ((probeTimes rte ip (start cfg shm nicMac) es).Pairwise fun a b =>
        a.toNat + Config.arpProbeIntervalMs.toNat ≤ b.toNat) ∧
      ∀ (earlier later : List Event) (now : UInt64) (buf : Option Frame) (w : Worker) (m : Mbuf)
        (rest : List Mbuf),
        es = earlier ++ .handleNext now buf :: later →
        run (step rte) (start cfg shm nicMac) earlier = w → w.rx = m :: rest →
        ((w.gw.handle rte now).run m.frame).val.1.result = .pendingArp →
        ((w.gw.handle rte now).run m.frame).val.1.arpWaitIp = ip → ip ≠ 0 →
          (∃ a ∈ probeTimes rte ip (start cfg shm nicMac) (earlier ++ [.handleNext now buf]),
            now.toNat < a.toNat + Config.arpProbeIntervalMs.toNat) ∨
          ((NoProbeBuf buf ∨ Config.ioRxBurst ≤ (w.step rte (.handleNext now buf)).tx.n) ∧
            (w.step rte (.handleNext now buf)).gw.arpProbeLastMs.lookup ip =
              w.gw.arpProbeLastMs.lookup ip ∧
            ∀ now', now ≤ now' →
              (w.step rte (.handleNext now buf)).probedRecently ip now' = false) := by
  constructor
  · refine (run_probeHistory rte cfg shm nicMac ip es hclock (.ofNat (2 ^ 64 - 1)) ?_).spaced
    intro a _
    have hlt := a.toNat_lt
    rw [UInt64.le_iff_toNat_le]
    show a.toNat ≤ 2 ^ 64 - 1
    omega
  · intro earlier later now buf w m rest hes hw hrx hres hwait hip
    rw [hes, List.filterMap_append, List.pairwise_append] at hclock
    obtain ⟨hbefore, -, hle⟩ := hclock
    have hhistory := run_probeHistory rte cfg shm nicMac ip earlier hbefore now
      fun a ha => hle a ha now (by simp [Event.time])
    have hsound : w.Sound cfg := by
      rw [← hw]
      exact run_invariant (step_sound rte) (start_sound cfg shm nicMac) earlier
    rw [hw] at hhistory
    have hpending := hhistory.pending rte hsound hrx hres hwait hip buf
    rw [probeTimes] at hpending ⊢
    rw [outputs_concat, hw]
    exact hpending

/-- Two client frames, 5 ms apart, for an upstream that is not resolved; the first one finds a buffer for
a probe. -/
def labProbeEvents : List Event :=
  [.pollControl (some ⟨.mod, [⟨Config.ipv4From ![10, 0, 0, 2], 53⟩]⟩),
    .recvBurst [labClientFrame, labClientFrame], .handleNext 0 (some (Frame.ofBytes []))]

/-- The second frame finds that a probe was sent during the last interval. -/
theorem probes_rate_limited_lab :
    ∃ a ∈ probeTimes Rte.dpdk (Config.ipv4From ![10, 0, 0, 2]) (start .lab none none)
        (labProbeEvents ++ [.handleNext 5 none]),
      (5 : UInt64).toNat < a.toNat + Config.arpProbeIntervalMs.toNat := by
  have hclock : ((labProbeEvents ++ [Event.handleNext 5 none]).filterMap Event.time).Pairwise
      (· ≤ ·) := by
    decide
  obtain ⟨-, hpending⟩ := probes_rate_limited Rte.dpdk .lab none none
    (Config.ipv4From ![10, 0, 0, 2]) (labProbeEvents ++ [.handleNext 5 none]) hclock
  generalize hw : run (step Rte.dpdk) (start .lab none none) labProbeEvents = w
  have hnext : (w.rx.head?.map fun m => ((w.gw.handle Rte.dpdk 5).run m.frame).val.1) =
      some { result := .pendingArp, arpWaitIp := Config.ipv4From ![10, 0, 0, 2] } := by
    rw [← hw]
    decide +kernel
  have hroom : (w.step Rte.dpdk (.handleNext 5 none)).probedRecently
      (Config.ipv4From ![10, 0, 0, 2]) 5 = true := by
    rw [← hw]
    decide +kernel
  cases hrx : w.rx with
  | nil =>
      rw [hrx] at hnext
      cases hnext
  | cons m rest =>
      rw [hrx] at hnext
      have ho := Option.some.inj hnext
      rcases hpending labProbeEvents [] 5 none w m rest rfl hw hrx (congrArg HandleOutcome.result ho)
        (congrArg HandleOutcome.arpWaitIp ho) (by decide) with hsent | ⟨-, -, hretry⟩
      · exact hsent
      · rw [hretry 5 (UInt64.le_refl 5)] at hroom
        cases hroom

end Worker

end VioletGateway
