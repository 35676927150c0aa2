import VioletGateway.Session.Invariant

/-!
# Completeness of the SNAT pool

A table whose range has `N` ports refuses a session exactly when it has `N` live ones
(`create_none_iff_full`): the ports of the live sessions are distinct ports of the range, so there are
`N` of them exactly when the whole range is in use, and `create` fails exactly then. Hence no port is
lost to any sequence of creates and expiries: from every state, as many further sessions can be
created as are missing to `N` (`createMany_isSome_iff`).
-/

set_option autoImplicit false

namespace VioletGateway

namespace SessionTable

/-- Offsets in the range of the ports of the live sessions. -/
def portOffsets (t : SessionTable) : List Nat :=
  t.live.map fun ps => ps.2.snatPort.toNat - t.pool.snatBegin.toNat

theorem length_portOffsets {t : SessionTable} (h : t.Inv) :
    t.portOffsets.length = t.sessions.length := by
  have hlen := congrArg List.length (map_fst_live h.coherent)
  simpa [portOffsets] using hlen

theorem live_inRange {t : SessionTable} (h : t.Inv) {ps : SessionPtr × Session}
    (hps : ps ∈ t.live) : t.pool.InRange ps.2.snatPort :=
  h.pool.inUse_inRange _ ((inUse_iff_live h _).mpr ⟨ps, hps, rfl⟩)

theorem nodup_portOffsets {t : SessionTable} (h : t.Inv) : t.portOffsets.Nodup := by
  apply (nodup_live h.coherent).map_on
  intro ps hps ps' hps' heq
  have h1 := (live_inRange h hps).1
  have h2 := (live_inRange h hps').1
  have hport : ps.2.snatPort = ps'.2.snatPort := by
    apply UInt16.toNat.inj
    omega
  exact List.inj_on_of_nodup_map (nodup_ports h.coherent) hps hps' hport

theorem portOffsets_subset {t : SessionTable} (h : t.Inv) :
    t.portOffsets ⊆ List.range t.pool.capacity := by
  intro n hn
  obtain ⟨ps, hps, rfl⟩ := List.mem_map.mp hn
  obtain ⟨hlo, hhi⟩ := live_inRange h hps
  rw [List.mem_range]
  omega

/-- There are never more sessions than ports. -/
theorem length_sessions_le {t : SessionTable} (h : t.Inv) : t.sessions.length ≤ t.pool.capacity := by
  rw [← length_portOffsets h, ← List.length_range (n := t.pool.capacity)]
  exact ((nodup_portOffsets h).subperm (portOffsets_subset h)).length_le

/-- As many sessions as ports is the same as the whole range in use. -/
theorem length_eq_capacity_iff {t : SessionTable} (h : t.Inv) :
    t.sessions.length = t.pool.capacity ↔
      ∀ q, t.pool.InRange q → t.pool.portInUse q = true := by
  constructor
  · intro hlen q hq
    -- a full list of distinct offsets below the capacity contains every such offset
    have hsub := (nodup_portOffsets h).subperm (portOffsets_subset h)
    have hperm : t.portOffsets.Perm (List.range t.pool.capacity) := by
      apply hsub.perm_of_length_le
      rw [List.length_range, length_portOffsets h, hlen]
    have hmem : q.toNat - t.pool.snatBegin.toNat ∈ t.portOffsets := by
      rw [hperm.mem_iff, List.mem_range]
      have h1 := hq.1
      have h2 := hq.2
      omega
    obtain ⟨ps, hps, heq⟩ := List.mem_map.mp hmem
    have h1 := (live_inRange h hps).1
    have h2 := hq.1
    have hport : ps.2.snatPort = q := by
      apply UInt16.toNat.inj
      omega
    exact (inUse_iff_live h q).mpr ⟨ps, hps, hport⟩
  · intro hall
    -- conversely, every offset below the capacity is the port of some session
    apply Nat.le_antisymm (length_sessions_le h)
    rw [← length_portOffsets h, ← List.length_range (n := t.pool.capacity)]
    refine (List.Nodup.subperm List.nodup_range ?_).length_le
    intro n hn
    rw [List.mem_range] at hn
    obtain ⟨hfit, -⟩ := h.pool.range.fits
    have hq : (UInt16.ofNat (t.pool.snatBegin.toNat + n)).toNat = t.pool.snatBegin.toNat + n := by
      rw [UInt16.toNat_ofNat', Nat.mod_eq_of_lt (by omega)]
    have huse := hall (UInt16.ofNat (t.pool.snatBegin.toNat + n)) (by
      rw [SnatPool.InRange, hq]
      omega)
    obtain ⟨ps, hps, hport⟩ := (inUse_iff_live h _).mp huse
    refine List.mem_map.mpr ⟨ps, hps, ?_⟩
    rw [hport, hq]
    omega

/-- `create` fails exactly on a full table. -/
theorem create_none_iff_full {t : SessionTable} (h : t.Inv) (key : FlowKey) (ip : UInt32)
    (port : UInt16) (now : UInt64) :
    (t.create key ip port now).1 = none ↔ t.sessions.length = t.pool.capacity := by
  rw [length_eq_capacity_iff h]
  have hstep := create_cases h key ip port now
  generalize t.create key ip port now = r at hstep
  cases hstep with
  | exhausted hall _ _ _ _ => exact ⟨fun _ => hall, fun _ => rfl⟩
  | @created snat P hsnat hun _ _ _ =>
      constructor
      · intro hnone
        simp at hnone
      · intro hall
        rw [hall snat hsnat] at hun
        exact Bool.noConfusion hun

/-- A successful `create` adds one session, whose port no live session owned. -/
theorem create_some_fresh {t : SessionTable} (h : t.Inv) {key : FlowKey} {ip : UInt32}
    {port : UInt16} {now : UInt64} {p : SessionPtr} (hc : (t.create key ip port now).1 = some p) :
    ∃ s, (t.create key ip port now).2.heap p = some s ∧ s.forwardKey = key ∧
      (t.create key ip port now).2.sessions = t.sessions ++ [p] ∧
      ∀ ps ∈ t.live, ps.2.snatPort ≠ s.snatPort := by
  have hstep := create_cases h key ip port now
  generalize t.create key ip port now = r at hstep hc ⊢
  cases hstep with
  | exhausted _ _ _ _ _ => simp at hc
  | @created snat P _ hun _ _ _ =>
      obtain rfl : t.nextPtr = p := Option.some.inj hc
      refine ⟨makeSession t.gatewayIp key ip port snat now, Function.update_self .., rfl, rfl, ?_⟩
      intro ps hps heq
      have huse := (inUse_iff_live h snat).mpr ⟨ps, hps, heq⟩
      rw [hun] at huse
      exact Bool.noConfusion huse

/-- A session filed under one key leaves every other missing key missing. -/
theorem create_lookupForward_ne {t : SessionTable} (h : t.Inv) {key key' : FlowKey} {ip : UInt32}
    {port : UInt16} {now : UInt64} (hne : key' ≠ key) :
    (t.create key ip port now).2.lookupForward key' = t.lookupForward key' := by
  have hstep := create_cases h key ip port now
  generalize t.create key ip port now = r at hstep ⊢
  cases hstep with
  | exhausted _ _ _ _ _ => rfl
  | created _ _ _ _ _ => exact AList.lookup_insert_ne hne

/-- Creates for the keys of a list, one after the other; `none` when one of them is refused. -/
def createMany (ip : UInt32) (port : UInt16) (now : UInt64) :
    List FlowKey → SessionTable → Option SessionTable
  | [], t => some t
  | key :: keys, t =>
    match t.create key ip port now with
    | (none, _) => none
    | (some _, t') => createMany ip port now keys t'

/-- New sessions for distinct keys are all accepted exactly when they fit into the range. -/
theorem createMany_isSome_iff (ip : UInt32) (port : UInt16) (now : UInt64) (keys : List FlowKey) :
    ∀ {t : SessionTable}, t.Inv → keys.Nodup → (∀ k ∈ keys, t.lookupForward k = none) →
      ((createMany ip port now keys t).isSome = true ↔
        t.sessions.length + keys.length ≤ t.pool.capacity) := by
  induction keys with
  | nil =>
      intro t h _ _
      simpa [createMany] using length_sessions_le h
  | cons key keys ih =>
      intro t h hnd hmiss
      obtain ⟨hkey, hnd'⟩ := List.nodup_cons.mp hnd
      have hfull := create_none_iff_full h key ip port now
      have hle := length_sessions_le h
      have hlen : (key :: keys).length = keys.length + 1 := rfl
      cases hc : (t.create key ip port now).1 with
      | none =>
          -- the first key is refused, so the table is full
          have hmany : createMany ip port now (key :: keys) t = none := by
            rw [createMany]
            split
            · rfl
            · rename_i p t' heq
              rw [heq] at hc
              exact absurd hc (by simp)
          have hsz := hfull.mp hc
          rw [hmany, hlen]
          simp only [Option.isSome_none, Bool.false_eq_true, false_iff]
          omega
      | some p =>
          -- it is accepted, and the others are created in a table with one session more
          have hmany : createMany ip port now (key :: keys) t =
              createMany ip port now keys (t.create key ip port now).2 := by
            rw [createMany]
            split
            · rename_i t' heq
              rw [heq] at hc
              exact absurd hc (by simp)
            · rename_i q t' heq
              rw [heq]
          obtain ⟨s, -, -, hsessions, -⟩ := create_some_fresh h hc
          have hinv := create_inv h (hmiss key List.mem_cons_self) ip port now
          have hcap := (create_sameRange h key ip port now).capacity
          have hrest := ih hinv hnd' (by
            intro k hk
            have hne : k ≠ key := fun heq => hkey (heq ▸ hk)
            rw [create_lookupForward_ne h hne]
            exact hmiss k (List.mem_cons_of_mem key hk))
          rw [hmany, hrest, hsessions, hcap, List.length_append, List.length_singleton, hlen]
          constructor <;> intro hsz <;> omega

/-- For every table with `snat_port_begin >= 1` and a range of `N` ports, in every reachable state:
`create` returns null exactly when there are `N` live sessions, a created session gets a port that no
live session owned, and as many further sessions as are missing to `N` are all accepted. -/
theorem snatPool_complete (gw : UInt32) (idle : UInt64) (b e : UInt16) (hb : 1 ≤ b.toNat)
    {t : SessionTable} (hr : Reaches (new gw idle b e) t) (ip : UInt32) (port : UInt16)
    (now : UInt64) :
    (∀ key, (t.create key ip port now).1 = none ↔ t.sessions.length = snatRangeSize b e) ∧
      (∀ key p, (t.create key ip port now).1 = some p →
        ∃ s, (t.create key ip port now).2.heap p = some s ∧
          ∀ ps ∈ t.live, ps.2.snatPort ≠ s.snatPort) ∧
      ∀ keys : List FlowKey, keys.Nodup → (∀ k ∈ keys, t.lookupForward k = none) →
        ((createMany ip port now keys t).isSome = true ↔
          t.sessions.length + keys.length ≤ snatRangeSize b e) := by
  have hnew := new_inv gw idle b e hb
  have h := inv_of_reaches hnew hr
  have hcap : t.pool.capacity = snatRangeSize b e :=
    capacity_of_sameRange (sameRange_of_reaches hnew hr)
  rw [← hcap]
  refine ⟨fun key => create_none_iff_full h key ip port now, ?_, ?_⟩
  · intro key p hc
    obtain ⟨s, hs, -, -, hfresh⟩ := create_some_fresh h hc
    exact ⟨s, hs, hfresh⟩
  · exact fun keys hnd hmiss => createMany_isSome_iff ip port now keys h hnd hmiss

/-- With the one-port range at `65535`, a second session is refused and, once the first one has
expired, accepted again. -/
theorem snatPool_complete_lastPort :
    ((((new 0 50 65535 7).create {} 1 53 0).2.create { srcPort := 9 } 1 53 0).1 = none) ∧
      ((((new 0 50 65535 7).create {} 1 53 0).2.expire 60).2.create { srcPort := 9 } 1 53 60).1 ≠
        none := by
  have hone : Reaches (new 0 50 65535 7) ((new 0 50 65535 7).create {} 1 53 0).2 :=
    .call (.create {} 1 53 0) .refl rfl
  have hexp := Reaches.call (.expire 60) hone trivial
  refine ⟨?_, ?_⟩
  · exact ((snatPool_complete 0 50 65535 7 (by decide) hone 1 53 0).1 { srcPort := 9 }).mpr (by decide)
  · intro hnone
    have hfull := ((snatPool_complete 0 50 65535 7 (by decide) hexp 1 53 60).1 _).mp hnone
    exact absurd hfull (by decide)

end SessionTable

end VioletGateway
