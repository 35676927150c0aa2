import VioletGateway.Session.Table

/-!
# Representation invariant of the session table

`SessionTable.Inv` keeps the five redundant structures of the table in step: the vector, the two
maps, the bitmap of ports in use and the free list. It is stated over the heap of session objects:
the vector lists exactly the allocated sessions, each map finds exactly the session filed under a
key, and a port is in use exactly when an allocated session owns it.

Every call that the callers make keeps it (`inv_of_reaches`). `Repr` is what it says about the vector,
the maps and the pool as containers (`sessionTable_repr`).
-/

set_option autoImplicit false

namespace VioletGateway

namespace SessionTable

/-- Representation invariant of the session table. -/
structure Inv (t : SessionTable) : Prop where
  pool : t.pool.Inv
  nodup : t.sessions.Nodup
  live_iff : ∀ p, p ∈ t.sessions ↔ ∃ s, t.heap p = some s
  ptr_lt : ∀ p ∈ t.sessions, p < t.nextPtr
  forward_iff : ∀ k p, t.forward.lookup k = some p ↔ ∃ s, t.heap p = some s ∧ s.forwardKey = k
  reverse_iff : ∀ k p, t.reverse.lookup k = some p ↔ ∃ s, t.heap p = some s ∧ s.reverseKey = k
  owner_iff : ∀ q, t.pool.portInUse q = true ↔ ∃ p s, t.heap p = some s ∧ s.snatPort = q
  port_inj : ∀ p p' s s', t.heap p = some s → t.heap p' = some s' → s.snatPort = s'.snatPort →
    p = p'
  made : ∀ p s, t.heap p = some s →
    s = makeSession t.gatewayIp s.forwardKey s.upstreamIp s.upstreamPort s.snatPort s.lastActiveMs

/-- The part of the invariant that does not depend on the range of the ports: it also holds of a table
with `snat_port_begin = 0`, in which port `0` is marked once and never given out. -/
structure Coherent (t : SessionTable) : Prop where
  nodup : t.sessions.Nodup
  live_iff : ∀ p, p ∈ t.sessions ↔ ∃ s, t.heap p = some s
  ptr_lt : ∀ p ∈ t.sessions, p < t.nextPtr
  forward_iff : ∀ k p, t.forward.lookup k = some p ↔ ∃ s, t.heap p = some s ∧ s.forwardKey = k
  reverse_iff : ∀ k p, t.reverse.lookup k = some p ↔ ∃ s, t.heap p = some s ∧ s.reverseKey = k
  owned : ∀ p s, t.heap p = some s → s.snatPort ≠ 0 ∧ t.pool.portInUse s.snatPort = true
  port_inj : ∀ p p' s s', t.heap p = some s → t.heap p' = some s' → s.snatPort = s'.snatPort →
    p = p'
  made : ∀ p s, t.heap p = some s →
    s = makeSession t.gatewayIp s.forwardKey s.upstreamIp s.upstreamPort s.snatPort s.lastActiveMs
  free : t.pool.FreeOk

theorem Inv.coherent {t : SessionTable} (h : t.Inv) : t.Coherent where
  nodup := h.nodup
  live_iff := h.live_iff
  ptr_lt := h.ptr_lt
  forward_iff := h.forward_iff
  reverse_iff := h.reverse_iff
  owned := by
    intro p s hs
    have huse := (h.owner_iff s.snatPort).mpr ⟨p, s, hs, rfl⟩
    exact ⟨(h.pool.inUse_inRange _ huse).ne_zero h.pool.range, huse⟩
  port_inj := h.port_inj
  made := h.made
  free := ⟨h.pool.free_nodup, h.pool.free_unused⟩

/-- What the range adds: the pool is in order, and every port in use has an owner. -/
theorem Coherent.inv {t : SessionTable} (h : t.Coherent) (hP : t.pool.Inv)
    (howner : ∀ q, t.pool.portInUse q = true → ∃ p s, t.heap p = some s ∧ s.snatPort = q) :
    t.Inv where
  pool := hP
  nodup := h.nodup
  live_iff := h.live_iff
  ptr_lt := h.ptr_lt
  forward_iff := h.forward_iff
  reverse_iff := h.reverse_iff
  owner_iff := by
    intro q
    refine ⟨howner q, ?_⟩
    rintro ⟨p, s, hs, rfl⟩
    exact (h.owned p s hs).2
  port_inj := h.port_inj
  made := h.made

theorem new_coherent (gw : UInt32) (idle : UInt64) (b e : UInt16) :
    (new gw idle b e).Coherent where
  nodup := List.nodup_nil
  live_iff := by simp [new]
  ptr_lt := by simp [new]
  forward_iff := by simp [new]
  reverse_iff := by simp [new]
  owned := by simp [new]
  port_inj := by simp [new]
  made := by simp [new]
  free := ⟨List.nodup_nil, nofun⟩

theorem new_inv (gw : UInt32) (idle : UInt64) (b e : UInt16) (hb : 1 ≤ b.toNat) :
    (new gw idle b e).Inv :=
  (new_coherent gw idle b e).inv (SnatPool.new_inv b e hb) (by simp [new, SnatPool.new])

/-! ## Touch -/

/-- The session objects after a touch: the touched one differs in its activity time only. -/
theorem touch_heap_iff (t : SessionTable) (o : Option SessionPtr) (now : UInt64) (q : SessionPtr)
    (s' : Session) :
    (t.touch o now).heap q = some s' ↔
      ∃ s, t.heap q = some s ∧ s' = if o = some q then { s with lastActiveMs := now } else s := by
  cases o with
  | none => simp [touch]
  | some p =>
      by_cases hqp : q = p
      · subst hqp
        simp [touch, eq_comm]
      · have hpq : ¬ p = q := fun h => hqp h.symm
        simp [touch, Function.update_of_ne hqp, hpq]

/-- The touched session. -/
theorem touch_heap_self {t : SessionTable} {p : SessionPtr} {s : Session} (hs : t.heap p = some s)
    (now : UInt64) : (t.touch (some p) now).heap p = some { s with lastActiveMs := now } :=
  (touch_heap_iff t (some p) now p _).mpr ⟨s, hs, by simp⟩

/-- A property of sessions that does not look at the activity time is unaffected by a touch. -/
theorem touch_exists_iff (t : SessionTable) (o : Option SessionPtr) (now : UInt64) (q : SessionPtr)
    {P : Session → Prop} (hP : ∀ s, P { s with lastActiveMs := now } ↔ P s) :
    (∃ s, (t.touch o now).heap q = some s ∧ P s) ↔ ∃ s, t.heap q = some s ∧ P s := by
  constructor
  · rintro ⟨s', hs', hPs'⟩
    obtain ⟨s, hs, rfl⟩ := (touch_heap_iff t o now q s').mp hs'
    refine ⟨s, hs, ?_⟩
    split at hPs'
    · exact (hP s).mp hPs'
    · exact hPs'
  · rintro ⟨s, hs, hPs⟩
    refine ⟨_, (touch_heap_iff t o now q _).mpr ⟨s, hs, rfl⟩, ?_⟩
    split
    · exact (hP s).mpr hPs
    · exact hPs

@[simp] theorem touch_sessions (t : SessionTable) (o : Option SessionPtr) (now : UInt64) :
    (t.touch o now).sessions = t.sessions := by cases o <;> rfl

@[simp] theorem touch_forward (t : SessionTable) (o : Option SessionPtr) (now : UInt64) :
    (t.touch o now).forward = t.forward := by cases o <;> rfl

@[simp] theorem touch_reverse (t : SessionTable) (o : Option SessionPtr) (now : UInt64) :
    (t.touch o now).reverse = t.reverse := by cases o <;> rfl

@[simp] theorem touch_pool (t : SessionTable) (o : Option SessionPtr) (now : UInt64) :
    (t.touch o now).pool = t.pool := by cases o <;> rfl

@[simp] theorem touch_nextPtr (t : SessionTable) (o : Option SessionPtr) (now : UInt64) :
    (t.touch o now).nextPtr = t.nextPtr := by cases o <;> rfl

@[simp] theorem touch_gatewayIp (t : SessionTable) (o : Option SessionPtr) (now : UInt64) :
    (t.touch o now).gatewayIp = t.gatewayIp := by cases o <;> rfl

theorem touch_coherent {t : SessionTable} (h : t.Coherent) (o : Option SessionPtr) (now : UInt64) :
    (t.touch o now).Coherent where
  nodup := by simpa using h.nodup
  live_iff := by
    intro p
    -- none of the fields below looks at the activity time
    have hlive := touch_exists_iff t o now p (P := fun _ => True) (fun _ => Iff.rfl)
    simp only [and_true] at hlive
    rw [touch_sessions, h.live_iff p, hlive]
  ptr_lt := by simpa using h.ptr_lt
  forward_iff := by
    intro k p
    rw [touch_forward, h.forward_iff k p,
      touch_exists_iff t o now p (P := fun s => s.forwardKey = k) (fun _ => Iff.rfl)]
  reverse_iff := by
    intro k p
    rw [touch_reverse, h.reverse_iff k p,
      touch_exists_iff t o now p (P := fun s => s.reverseKey = k) (fun _ => Iff.rfl)]
  owned := by
    intro p s hs
    obtain ⟨u, hu, rfl⟩ := (touch_heap_iff t o now p s).mp hs
    rw [touch_pool]
    split <;> exact h.owned p u hu
  port_inj := by
    intro p p' s s' hs hs' heq
    obtain ⟨u, hu, rfl⟩ := (touch_heap_iff t o now p s).mp hs
    obtain ⟨u', hu', rfl⟩ := (touch_heap_iff t o now p' s').mp hs'
    apply h.port_inj p p' u u' hu hu'
    split at heq <;> split at heq <;> exact heq
  made := by
    intro p s hs
    obtain ⟨u, hu, rfl⟩ := (touch_heap_iff t o now p s).mp hs
    have hmade := h.made p u hu
    rw [touch_gatewayIp]
    split
    · rw [hmade]
      rfl
    · exact hmade
  free := by
    rw [touch_pool]
    exact h.free

theorem touch_inv {t : SessionTable} (h : t.Inv) (o : Option SessionPtr) (now : UInt64) :
    (t.touch o now).Inv := by
  apply (touch_coherent h.coherent o now).inv (by simpa using h.pool)
  intro q hq
  rw [touch_pool, h.owner_iff q] at hq
  obtain ⟨p, hp⟩ := hq
  exact ⟨p, (touch_exists_iff t o now p (P := fun s => s.snatPort = q) (fun _ => Iff.rfl)).mpr hp⟩

/-! ## Create -/

theorem Coherent.heap_nextPtr {t : SessionTable} (h : t.Coherent) : t.heap t.nextPtr = none := by
  cases hs : t.heap t.nextPtr with
  | none => rfl
  | some s =>
      have hmem := (h.live_iff t.nextPtr).mpr ⟨s, hs⟩
      exact absurd (h.ptr_lt _ hmem) (Nat.lt_irrefl _)

/-- The pool may be replaced by one with the same ports in use. -/
theorem setPool_inv {t : SessionTable} (h : t.Inv) {P : SnatPool} (hP : P.Inv)
    (huse : P.portInUse = t.pool.portInUse) : ({ t with pool := P } : SessionTable).Inv :=
  { h with
    pool := hP
    owner_iff := by
      intro q
      show P.portInUse q = true ↔ _
      rw [huse]
      exact h.owner_iff q }

theorem Coherent.addSession_heap_iff {t : SessionTable} (h : t.Coherent) (s : Session)
    (q : SessionPtr) (s' : Session) :
    (t.addSession t.nextPtr s).heap q = some s' ↔
      (q = t.nextPtr ∧ s' = s) ∨ t.heap q = some s' := by
  by_cases hq : q = t.nextPtr
  · subst hq
    simp [addSession, h.heap_nextPtr, eq_comm]
  · simp [addSession, hq]

theorem addSession_heap_iff {t : SessionTable} (h : t.Inv) (s : Session) (q : SessionPtr)
    (s' : Session) :
    (t.addSession t.nextPtr s).heap q = some s' ↔
      (q = t.nextPtr ∧ s' = s) ∨ t.heap q = some s' :=
  h.coherent.addSession_heap_iff s q s'

/-- Filing under a key that is not in the map adds exactly one entry. -/
theorem lookup_insert_fresh {m : AList fun _ : FlowKey => SessionPtr} {k : FlowKey}
    {p : SessionPtr} (hk : m.lookup k = none) (k' : FlowKey) (q : SessionPtr) :
    (m.insert k p).lookup k' = some q ↔ (k' = k ∧ q = p) ∨ m.lookup k' = some q := by
  by_cases hkk : k' = k
  · subst hkk
    simp [hk, eq_comm]
  · simp [AList.lookup_insert_ne hkk, hkk]

/-- A map that finds each session under its key keeps doing so when one more session is filed. -/
theorem insert_lookup_iff {m : AList fun _ : FlowKey => SessionPtr} {f : Session → FlowKey}
    {heap heap' : SessionPtr → Option Session} {p₀ : SessionPtr} {s₀ : Session}
    (hm : ∀ k p, m.lookup k = some p ↔ ∃ s, heap p = some s ∧ f s = k)
    (hheap : ∀ q s, heap' q = some s ↔ (q = p₀ ∧ s = s₀) ∨ heap q = some s)
    (hfresh : m.lookup (f s₀) = none) (k : FlowKey) (p : SessionPtr) :
    (m.insert (f s₀) p₀).lookup k = some p ↔ ∃ s, heap' p = some s ∧ f s = k := by
  rw [lookup_insert_fresh hfresh, hm k p]
  constructor
  · rintro (⟨rfl, rfl⟩ | ⟨s, hs, hk⟩)
    · exact ⟨s₀, (hheap _ _).mpr (Or.inl ⟨rfl, rfl⟩), rfl⟩
    · exact ⟨s, (hheap p s).mpr (Or.inr hs), hk⟩
  · rintro ⟨s, hs, hk⟩
    rcases (hheap p s).mp hs with ⟨hp, rfl⟩ | hs
    · exact Or.inl ⟨hk.symm, hp⟩
    · exact Or.inr ⟨s, hs, hk⟩

/-- No session has a port that is not in use. -/
theorem Coherent.snatPort_ne {t : SessionTable} (h : t.Coherent) {snat : UInt16}
    (hsnat : t.pool.portInUse snat = false) {p : SessionPtr} {s : Session} (hs : t.heap p = some s) :
    s.snatPort ≠ snat := by
  rintro rfl
  have hin := (h.owned p s hs).2
  rw [hsnat] at hin
  exact Bool.noConfusion hin

/-- A reverse key carries the SNAT port, so that of a session with a new port is not in the map. -/
theorem Coherent.reverseKey_fresh {t : SessionTable} (h : t.Coherent) {snat : UInt16}
    (hsnat : t.pool.portInUse snat = false) (key : FlowKey) (ip : UInt32) (port : UInt16)
    (now : UInt64) :
    t.reverse.lookup (makeSession t.gatewayIp key ip port snat now).reverseKey = none := by
  cases hl : t.reverse.lookup (makeSession t.gatewayIp key ip port snat now).reverseKey with
  | none => rfl
  | some p =>
      obtain ⟨s, hs, hk⟩ := (h.reverse_iff _ p).mp hl
      have hport : s.reverseKey.dstPort = snat := by
        rw [hk]
        rfl
      rw [h.made p s hs] at hport
      exact absurd hport (h.snatPort_ne hsnat hs)

/-- Filing a new session whose port is freshly taken and whose keys are new keeps the table coherent. -/
theorem addSession_coherent {t : SessionTable} (h : t.Coherent) {P : SnatPool} (hfree : P.FreeOk)
    {key : FlowKey} {ip : UInt32} {port snat : UInt16} {now : UInt64}
    (hkey : t.lookupForward key = none) (hne : snat ≠ 0) (hsnat : t.pool.portInUse snat = false)
    (huse : P.portInUse = Function.update t.pool.portInUse snat true) :
    (({ t with pool := P } : SessionTable).addSession t.nextPtr
      (makeSession t.gatewayIp key ip port snat now)).Coherent := by
  have hheap := h.addSession_heap_iff (makeSession t.gatewayIp key ip port snat now)
  constructor
  · refine List.nodup_append.mpr ⟨h.nodup, List.nodup_singleton _, ?_⟩
    rintro a ha b hb rfl
    rw [List.mem_singleton] at hb
    subst hb
    exact absurd (h.ptr_lt _ ha) (Nat.lt_irrefl _)
  · intro p
    show p ∈ t.sessions ++ [t.nextPtr] ↔ _
    rw [List.mem_append, List.mem_singleton, h.live_iff p]
    constructor
    · rintro (⟨s, hs⟩ | rfl)
      · exact ⟨s, (hheap p s).mpr (Or.inr hs)⟩
      · exact ⟨_, (hheap _ _).mpr (Or.inl ⟨rfl, rfl⟩)⟩
    · rintro ⟨s, hs⟩
      rcases (hheap p s).mp hs with ⟨hp, -⟩ | hs
      · exact Or.inr hp
      · exact Or.inl ⟨s, hs⟩
  · intro p hp
    show p < t.nextPtr + 1
    have hp' : p ∈ t.sessions ++ [t.nextPtr] := hp
    rw [List.mem_append, List.mem_singleton] at hp'
    rcases hp' with hp' | hp'
    · exact Nat.lt_succ_of_lt (h.ptr_lt p hp')
    · rw [hp']
      exact Nat.lt_succ_self _
  · exact insert_lookup_iff h.forward_iff hheap hkey
  · exact insert_lookup_iff h.reverse_iff hheap (h.reverseKey_fresh hsnat key ip port now)
  · intro p s hs
    show s.snatPort ≠ 0 ∧ P.portInUse s.snatPort = true
    rw [huse]
    rcases (hheap p s).mp hs with ⟨-, rfl⟩ | hs
    · exact ⟨hne, Function.update_self ..⟩
    · rw [Function.update_of_ne (h.snatPort_ne hsnat hs)]
      exact h.owned p s hs
  · intro p p' s s' hs hs' heq
    -- only one of the two can be the new session, and its port is new
    rcases (hheap p s).mp hs with ⟨hp, rfl⟩ | hs <;>
      rcases (hheap p' s').mp hs' with ⟨hp', rfl⟩ | hs'
    · exact hp.trans hp'.symm
    · exact absurd heq.symm (h.snatPort_ne hsnat hs')
    · exact absurd heq (h.snatPort_ne hsnat hs)
    · exact h.port_inj p p' s s' hs hs' heq
  · intro p s hs
    rcases (hheap p s).mp hs with ⟨-, rfl⟩ | hs
    · rfl
    · exact h.made p s hs
  · exact hfree

theorem addSession_inv {t : SessionTable} (h : t.Inv) {P : SnatPool} (hP : P.Inv) {key : FlowKey}
    {ip : UInt32} {port snat : UInt16} {now : UInt64} (hkey : t.lookupForward key = none)
    (hsnat : t.pool.InRange snat) (hunused : t.pool.portInUse snat = false)
    (huse : P.portInUse = Function.update t.pool.portInUse snat true) :
    (({ t with pool := P } : SessionTable).addSession t.nextPtr
      (makeSession t.gatewayIp key ip port snat now)).Inv := by
  have hheap := addSession_heap_iff h (makeSession t.gatewayIp key ip port snat now)
  refine (addSession_coherent h.coherent hP.freeOk hkey (hsnat.ne_zero h.pool.range) hunused
    huse).inv hP ?_
  intro q hq
  have hq' : P.portInUse q = true := hq
  rw [huse] at hq'
  by_cases hqs : q = snat
  · subst hqs
    exact ⟨_, _, (hheap _ _).mpr (Or.inl ⟨rfl, rfl⟩), rfl⟩
  · rw [Function.update_of_ne hqs, h.owner_iff q] at hq'
    obtain ⟨p, s, hs, hport⟩ := hq'
    exact ⟨p, s, (hheap p s).mpr (Or.inr hs), hport⟩

/-- What `create` does: it fails and keeps everything but the cursor, or it files a new session with
an unused port of the range. -/
inductive CreateStep (t : SessionTable) (key : FlowKey) (ip : UInt32) (port : UInt16)
    (now : UInt64) : Option SessionPtr × SessionTable → Prop
  | exhausted {P : SnatPool} (hall : ∀ q, t.pool.InRange q → t.pool.portInUse q = true)
      (hrange : P.SameRange t.pool) (huse : P.portInUse = t.pool.portInUse)
      (hfree : P.freePorts = t.pool.freePorts) (hP : P.Inv) :
      CreateStep t key ip port now (none, { t with pool := P })
  | created {snat : UInt16} {P : SnatPool} (hsnat : t.pool.InRange snat)
      (hunused : t.pool.portInUse snat = false) (hrange : P.SameRange t.pool)
      (huse : P.portInUse = Function.update t.pool.portInUse snat true) (hP : P.Inv) :
      CreateStep t key ip port now (some t.nextPtr,
        ({ t with pool := P } : SessionTable).addSession t.nextPtr
          (makeSession t.gatewayIp key ip port snat now))

theorem create_cases {t : SessionTable} (h : t.Inv) (key : FlowKey) (ip : UInt32) (port : UInt16)
    (now : UInt64) : CreateStep t key ip port now (t.create key ip port now) := by
  have hspec := SnatPool.allocSnatPort_spec h.pool
  rw [create]
  generalize t.pool.allocSnatPort = r at hspec
  cases hspec with
  | exhausted hall hrange huse hfree hinv => exact .exhausted hall hrange huse hfree hinv
  | @taken p Q hp hun hrange huse hinv =>
      -- a port of the range is never the error value
      have hne : p ≠ 0 := hp.ne_zero h.pool.range
      simp only [if_neg hne]
      exact .created hp hun hrange huse hinv

theorem create_inv {t : SessionTable} (h : t.Inv) {key : FlowKey} (hkey : t.lookupForward key = none)
    (ip : UInt32) (port : UInt16) (now : UInt64) : (t.create key ip port now).2.Inv := by
  have hstep := create_cases h key ip port now
  generalize t.create key ip port now = r at hstep ⊢
  cases hstep with
  | exhausted _ _ huse _ hP => exact setPool_inv h hP huse
  | created hsnat hun _ huse hP => exact addSession_inv h hP hkey hsnat hun huse

/-- A created session is allocated, with what `create` was given. -/
theorem create_some_session {t : SessionTable} {key : FlowKey} {ip : UInt32} {port : UInt16}
    {now : UInt64} {p : SessionPtr} (h : (t.create key ip port now).1 = some p) :
    ∃ snat, (t.create key ip port now).2.heap p =
      some (makeSession t.gatewayIp key ip port snat now) := by
  rw [create] at h ⊢
  dsimp only at h ⊢
  split_ifs at h ⊢ with hzero
  obtain rfl := Option.some.inj h
  exact ⟨_, Function.update_self ..⟩

/-! ## Erase and expire -/

theorem eraseSession_of_heap {t : SessionTable} {p : SessionPtr} {s : Session}
    (hs : t.heap p = some s) :
    t.eraseSession p =
      { t with
        forward := t.forward.erase s.forwardKey
        reverse := t.reverse.erase s.reverseKey
        pool := t.pool.freeSnatPort s.snatPort
        sessions := t.sessions.erase p
        heap := Function.update t.heap p none } := by
  simp only [eraseSession, hs]

/-- A map that finds each session under its key keeps doing so when one session is removed. -/
theorem erase_lookup_iff {m : AList fun _ : FlowKey => SessionPtr} {f : Session → FlowKey}
    {heap : SessionPtr → Option Session} {p₀ : SessionPtr} {s₀ : Session}
    (hm : ∀ k p, m.lookup k = some p ↔ ∃ s, heap p = some s ∧ f s = k) (hs₀ : heap p₀ = some s₀)
    (k : FlowKey) (p : SessionPtr) :
    (m.erase (f s₀)).lookup k = some p ↔
      ∃ s, Function.update heap p₀ none p = some s ∧ f s = k := by
  by_cases hk : k = f s₀
  · subst hk
    rw [AList.lookup_erase]
    constructor
    · intro hnone
      simp at hnone
    · rintro ⟨s, hs, hks⟩
      -- another session under the same key would be found under that key too
      have hp : p ≠ p₀ := by
        rintro rfl
        simp at hs
      rw [Function.update_of_ne hp] at hs
      have h1 := (hm (f s₀) p).mpr ⟨s, hs, hks⟩
      have h2 := (hm (f s₀) p₀).mpr ⟨s₀, hs₀, rfl⟩
      exact absurd (Option.some.inj (h1.symm.trans h2)) hp
  · rw [AList.lookup_erase_ne hk, hm k p]
    by_cases hp : p = p₀
    · subst hp
      constructor
      · rintro ⟨s, hs, hks⟩
        rw [hs₀] at hs
        cases hs
        exact absurd hks.symm hk
      · rintro ⟨s, hs, -⟩
        simp at hs
    · rw [Function.update_of_ne hp]

theorem eraseSession_coherent {t : SessionTable} (h : t.Coherent) (p : SessionPtr) :
    (t.eraseSession p).Coherent := by
  cases hs : t.heap p with
  | none =>
      have hsame : t.eraseSession p = t := by simp only [eraseSession, hs]
      rw [hsame]
      exact h
  | some s =>
      -- the port goes back to the pool, since its session is the only one that owns it
      obtain ⟨hne, huse⟩ := h.owned p s hs
      have hfreed := SnatPool.freeSnatPort_of_inUse hne huse
      have hheap : ∀ q u, Function.update t.heap p none q = some u ↔
          q ≠ p ∧ t.heap q = some u := by
        intro q u
        by_cases hq : q = p
        · subst hq
          simp
        · simp [hq]
      rw [eraseSession_of_heap hs]
      constructor
      · exact h.nodup.erase p
      · intro q
        show q ∈ t.sessions.erase p ↔ ∃ u, Function.update t.heap p none q = some u
        rw [h.nodup.mem_erase_iff, h.live_iff q]
        simp only [hheap, exists_and_left]
      · intro q hq
        exact h.ptr_lt q (List.mem_of_mem_erase hq)
      · exact erase_lookup_iff h.forward_iff hs
      · exact erase_lookup_iff h.reverse_iff hs
      · intro q u hu
        obtain ⟨hqp, hu⟩ := (hheap q u).mp hu
        show u.snatPort ≠ 0 ∧ (t.pool.freeSnatPort s.snatPort).portInUse u.snatPort = true
        have hport : u.snatPort ≠ s.snatPort := fun heq => hqp (h.port_inj q p u s hu hs heq)
        rw [hfreed]
        exact ⟨(h.owned q u hu).1, (Function.update_of_ne hport _ _).trans (h.owned q u hu).2⟩
      · intro q q' u u' hu hu' heq
        exact h.port_inj q q' u u' ((hheap q u).mp hu).2 ((hheap q' u').mp hu').2 heq
      · intro q u hu
        exact h.made q u ((hheap q u).mp hu).2
      · exact h.free.freeSnatPort _

theorem eraseSession_inv {t : SessionTable} (h : t.Inv) (p : SessionPtr) :
    (t.eraseSession p).Inv := by
  cases hs : t.heap p with
  | none =>
      have hsame : t.eraseSession p = t := by simp only [eraseSession, hs]
      rw [hsame]
      exact h
  | some s =>
      have huse : t.pool.portInUse s.snatPort = true := (h.owner_iff _).mpr ⟨p, s, hs, rfl⟩
      obtain ⟨hports, -, -, hpool⟩ := SnatPool.freeSnatPort_spec h.pool huse
      refine (eraseSession_coherent h.coherent p).inv ?_ ?_
      · rw [eraseSession_of_heap hs]
        exact hpool
      · intro q hq
        rw [eraseSession_of_heap hs] at hq ⊢
        change (t.pool.freeSnatPort s.snatPort).portInUse q = true at hq
        rw [hports] at hq
        -- only the bit of the freed port changes
        by_cases hqs : q = s.snatPort
        · rw [hqs, Function.update_self] at hq
          cases hq
        · rw [Function.update_of_ne hqs, h.owner_iff q] at hq
          obtain ⟨p', u, hu, hport⟩ := hq
          have hp : p' ≠ p := by
            rintro rfl
            rw [hs] at hu
            cases hu
            exact hqs hport.symm
          exact ⟨p', u, (Function.update_of_ne hp _ _).trans hu, hport⟩

/-- What erasing an idle session preserves, the loop of `expire` preserves. -/
theorem expireLoop_invariant {P : SessionTable → Prop} {now : UInt64}
    (herase : ∀ t p, t.isIdle now p = true → P t → P (t.eraseSession p)) (fuel : Nat) :
    ∀ (i removed : Nat) {t : SessionTable}, P t → P (expireLoop now fuel i removed t).2 := by
  induction fuel with
  | zero =>
      intro i removed t h
      exact h
  | succ fuel ih =>
      intro i removed t h
      rw [expireLoop]
      cases hi : t.sessions[i]? with
      | none => exact h
      | some p =>
          show P (if t.isIdle now p then _ else _ : Nat × SessionTable).2
          split
          -- the session at `i` is erased and the index stays, or it is kept and the index moves on
          · exact ih i (removed + 1) (herase t p ‹_› h)
          · exact ih (i + 1) removed h

/-- Erasing a session removes its object and no other. -/
theorem eraseSession_heap (t : SessionTable) (p q : SessionPtr) :
    (t.eraseSession p).heap q = if q = p then none else t.heap q := by
  cases hs : t.heap p with
  | none =>
      simp only [eraseSession, hs]
      split_ifs with hqp
      · rw [hqp, hs]
      · rfl
  | some s =>
      rw [eraseSession_of_heap hs]
      exact Function.update_apply t.heap p none q

/-- `expire` removes no session object but idle ones, and leaves the others as they are. -/
theorem expire_heap (t : SessionTable) (now : UInt64) (q : SessionPtr) :
    (t.expire now).2.heap q = t.heap q ∨
      ((t.expire now).2.heap q = none ∧ t.isIdle now q = true) := by
  refine (expireLoop_invariant (P := fun u => u.idleTimeoutMs = t.idleTimeoutMs ∧
    ∀ q, u.heap q = t.heap q ∨ (u.heap q = none ∧ t.isIdle now q = true)) ?_ _ 0 0
    ⟨rfl, fun _ => Or.inl rfl⟩).2 q
  rintro u p hidle ⟨htimeout, hheap⟩
  refine ⟨?_, fun q => ?_⟩
  · rw [eraseSession]
    split <;> exact htimeout
  · rw [eraseSession_heap]
    split_ifs with hqp
    · rw [hqp]
      refine Or.inr ⟨rfl, ?_⟩
      rcases hheap p with hsame | ⟨hnone, -⟩
      · rw [isIdle] at hidle ⊢
        rw [hsame, htimeout] at hidle
        exact hidle
      · -- what is erased already is not idle
        rw [isIdle, hnone] at hidle
        cases hidle
    · exact hheap q

theorem expire_inv {t : SessionTable} (h : t.Inv) (now : UInt64) : (t.expire now).2.Inv :=
  expireLoop_invariant (P := Inv) (fun _ p _ ht => eraseSession_inv ht p) _ 0 0 h

/-! ## Sequences of calls -/

/-- One allowed call keeps the invariant. -/
theorem call_inv {t : SessionTable} (h : t.Inv) (c : Call) (hc : c.Allowed t) : (c.apply t).Inv := by
  cases c with
  | lookupForward key => exact h
  | lookupReverse key => exact h
  | touch s now => exact touch_inv h s now
  | expire now => exact expire_inv h now
  | create key ip port now => exact create_inv h hc ip port now

/-- Every table that allowed calls reach satisfies the invariant. -/
theorem inv_of_reaches {t u : SessionTable} (h : t.Inv) (hr : Reaches t u) : u.Inv := by
  induction hr with
  | refl => exact h
  | call c _ hc ih => exact call_inv ih c hc

/-! ## The range along a run -/

theorem touch_sameRange (t : SessionTable) (o : Option SessionPtr) (now : UInt64) :
    (t.touch o now).pool.SameRange t.pool := by
  rw [touch_pool]
  exact .refl _

theorem eraseSession_sameRange (t : SessionTable) (p : SessionPtr) :
    (t.eraseSession p).pool.SameRange t.pool := by
  cases hs : t.heap p with
  | none =>
      simp only [eraseSession, hs]
      exact .refl _
  | some s =>
      rw [eraseSession_of_heap hs]
      show (t.pool.freeSnatPort s.snatPort).SameRange t.pool
      rw [SnatPool.freeSnatPort]
      split
      · exact .refl _
      · split <;> exact .refl _

theorem expire_sameRange (t : SessionTable) (now : UInt64) :
    (t.expire now).2.pool.SameRange t.pool :=
  expireLoop_invariant (P := fun u => u.pool.SameRange t.pool)
    (fun u p _ hu => (eraseSession_sameRange u p).trans hu) _ 0 0 (.refl _)

theorem create_sameRange {t : SessionTable} (h : t.Inv) (key : FlowKey) (ip : UInt32)
    (port : UInt16) (now : UInt64) : (t.create key ip port now).2.pool.SameRange t.pool := by
  have hstep := create_cases h key ip port now
  generalize t.create key ip port now = r at hstep ⊢
  cases hstep with
  | exhausted _ hrange _ _ _ => exact hrange
  | created _ _ hrange _ _ => exact hrange

theorem call_sameRange {t : SessionTable} (h : t.Inv) (c : Call) :
    (c.apply t).pool.SameRange t.pool := by
  cases c with
  | lookupForward key => exact .refl _
  | lookupReverse key => exact .refl _
  | touch s now => exact touch_sameRange t s now
  | expire now => exact expire_sameRange t now
  | create key ip port now => exact create_sameRange h key ip port now

theorem sameRange_of_reaches {t u : SessionTable} (h : t.Inv) (hr : Reaches t u) :
    u.pool.SameRange t.pool := by
  induction hr with
  | refl => exact .refl _
  | call c hr' _ ih => exact (call_sameRange (inv_of_reaches h hr') c).trans ih

/-- Number of ports of the range given to the constructor; an empty range is normalised to the
single port `begin`. -/
def snatRangeSize (b e : UInt16) : Nat := if b < e then e.toNat - b.toNat else 1

/-- `q` is a port of the range given to the constructor. -/
def InSnatRange (b e q : UInt16) : Prop :=
  b.toNat ≤ q.toNat ∧ q.toNat < b.toNat + snatRangeSize b e

theorem capacity_of_sameRange {t : SessionTable} {b e : UInt16}
    (h : t.pool.SameRange (SnatPool.new b e)) : t.pool.capacity = snatRangeSize b e := by
  rw [h.capacity, SnatPool.capacity_new]
  rfl

theorem inRange_iff_of_sameRange {t : SessionTable} {b e : UInt16}
    (h : t.pool.SameRange (SnatPool.new b e)) (q : UInt16) :
    t.pool.InRange q ↔ InSnatRange b e q := by
  have hbegin : t.pool.snatBegin = b := h.1
  rw [SnatPool.InRange, InSnatRange, capacity_of_sameRange h, hbegin]

/-! ## The containers -/

/-- The live sessions with their addresses, in the order of `sessions_`. -/
def live (t : SessionTable) : List (SessionPtr × Session) :=
  t.sessions.filterMap fun p => (t.heap p).map fun s => (p, s)

theorem mem_live {t : SessionTable} (h : t.Coherent) (p : SessionPtr) (s : Session) :
    (p, s) ∈ t.live ↔ t.heap p = some s := by
  simp only [live, List.mem_filterMap, Option.map_eq_some_iff, Prod.mk.injEq]
  constructor
  · rintro ⟨q, -, u, hu, rfl, rfl⟩
    exact hu
  · intro hs
    exact ⟨p, (h.live_iff p).mpr ⟨s, hs⟩, s, hs, rfl, rfl⟩

/-- Every pointer of the vector is a live session, so the live sessions are as many. -/
theorem map_fst_live {t : SessionTable} (h : t.Coherent) : t.live.map Prod.fst = t.sessions := by
  have key : ∀ l : List SessionPtr, (∀ p ∈ l, ∃ s, t.heap p = some s) →
      (l.filterMap fun p => (t.heap p).map fun s => (p, s)).map Prod.fst = l := by
    intro l
    induction l with
    | nil => exact fun _ => rfl
    | cons p l ih =>
        intro hl
        obtain ⟨s, hs⟩ := hl p List.mem_cons_self
        have hrest := ih fun q hq => hl q (List.mem_cons_of_mem p hq)
        simp [hs, hrest]
  exact key t.sessions fun p hp => (h.live_iff p).mp hp

theorem nodup_live {t : SessionTable} (h : t.Coherent) : t.live.Nodup := by
  apply List.Nodup.of_map Prod.fst
  rw [map_fst_live h]
  exact h.nodup

/-- A map that finds each live session under its key has one entry per live session. -/
theorem entries_perm_live {t : SessionTable} (h : t.Coherent)
    {m : AList fun _ : FlowKey => SessionPtr} {f : Session → FlowKey}
    (hm : ∀ k p, m.lookup k = some p ↔ ∃ s, t.heap p = some s ∧ f s = k) :
    m.entries.Perm (t.live.map fun ps => ⟨f ps.2, ps.1⟩) := by
  -- two lists without duplicates and with the same elements
  refine (List.perm_ext_iff_of_nodup m.nodupKeys.nodup ?_).mpr ?_
  · apply (nodup_live h).map_on
    rintro ⟨p, s⟩ hp ⟨p', s'⟩ hp' heq
    rw [mem_live h] at hp hp'
    simp only [Sigma.mk.injEq, heq_eq_eq] at heq
    obtain ⟨-, rfl⟩ := heq
    rw [Option.some.inj (hp.symm.trans hp')]
  · rintro ⟨k, p⟩
    rw [← AList.mem_lookup_iff, Option.mem_def, hm k p]
    simp only [List.mem_map, Sigma.mk.injEq, heq_eq_eq, Prod.exists, mem_live h]
    constructor
    · rintro ⟨s, hs, hk⟩
      exact ⟨p, s, hs, hk, rfl⟩
    · rintro ⟨q, s, hs, hk, rfl⟩
      exact ⟨s, hs, hk⟩

/-- The table as a set of containers, for the range `[b, e)` given to the constructor. -/
structure Repr (b e : UInt16) (t : SessionTable) : Prop where
  /-- every element of `sessions_` is a live session -/
  sessions_eq : t.live.map Prod.fst = t.sessions
  /-- `sessions_` has no element twice -/
  sessions_nodup : t.sessions.Nodup
  /-- `forward_` has exactly one entry per session -/
  forward_entries : t.forward.entries.Perm (t.live.map fun ps => ⟨ps.2.forwardKey, ps.1⟩)
  /-- `reverse_` has exactly one entry per session -/
  reverse_entries : t.reverse.entries.Perm (t.live.map fun ps => ⟨ps.2.reverseKey, ps.1⟩)
  /-- both lookups find every session -/
  lookup_live : ∀ ps ∈ t.live, t.lookupForward ps.2.forwardKey = some ps.1 ∧
    t.lookupReverse ps.2.reverseKey = some ps.1
  /-- the ports of the sessions are pairwise distinct -/
  ports_nodup : (t.live.map fun ps => ps.2.snatPort).Nodup
  /-- and lie in the range -/
  ports_inRange : ∀ ps ∈ t.live, InSnatRange b e ps.2.snatPort
  /-- the bitmap marks exactly the ports of the sessions -/
  inUse_iff : ∀ q, t.pool.portInUse q = true ↔ ∃ ps ∈ t.live, ps.2.snatPort = q
  /-- the free list has no duplicates and holds unused ports of the range only -/
  free_nodup : t.pool.freePorts.Nodup
  free_ok : ∀ q ∈ t.pool.freePorts, InSnatRange b e q ∧ t.pool.portInUse q = false

theorem nodup_ports {t : SessionTable} (h : t.Coherent) :
    (t.live.map fun ps => ps.2.snatPort).Nodup := by
  apply (nodup_live h).map_on
  rintro ⟨p, s⟩ hp ⟨p', s'⟩ hp' heq
  rw [mem_live h] at hp hp'
  obtain rfl := h.port_inj p p' s s' hp hp' heq
  rw [Option.some.inj (hp.symm.trans hp')]

theorem inUse_iff_live {t : SessionTable} (h : t.Inv) (q : UInt16) :
    t.pool.portInUse q = true ↔ ∃ ps ∈ t.live, ps.2.snatPort = q := by
  rw [h.owner_iff q]
  constructor
  · rintro ⟨p, s, hs, hq⟩
    exact ⟨(p, s), (mem_live h.coherent p s).mpr hs, hq⟩
  · rintro ⟨⟨p, s⟩, hps, hq⟩
    exact ⟨p, s, (mem_live h.coherent p s).mp hps, hq⟩

/-- In every state that allowed calls reach from a constructed table with `snat_port_begin >= 1`, the
vector, the two maps, the bitmap and the free list agree. -/
theorem sessionTable_repr (gw : UInt32) (idle : UInt64) (b e : UInt16) (hb : 1 ≤ b.toNat)
    {t : SessionTable} (hr : Reaches (new gw idle b e) t) : t.Repr b e := by
  have hnew := new_inv gw idle b e hb
  have h := inv_of_reaches hnew hr
  have hrange : t.pool.SameRange (SnatPool.new b e) := sameRange_of_reaches hnew hr
  constructor
  · exact map_fst_live h.coherent
  · exact h.nodup
  · exact entries_perm_live h.coherent h.forward_iff
  · exact entries_perm_live h.coherent h.reverse_iff
  · rintro ⟨p, s⟩ hps
    have hs := (mem_live h.coherent p s).mp hps
    exact ⟨(h.forward_iff _ p).mpr ⟨s, hs, rfl⟩, (h.reverse_iff _ p).mpr ⟨s, hs, rfl⟩⟩
  · exact nodup_ports h.coherent
  · rintro ⟨p, s⟩ hps
    have hs := (mem_live h.coherent p s).mp hps
    exact (inRange_iff_of_sameRange hrange _).mp
      (h.pool.inUse_inRange _ ((h.owner_iff _).mpr ⟨p, s, hs, rfl⟩))
  · exact inUse_iff_live h
  · exact h.pool.free_nodup
  · intro q hq
    exact ⟨(inRange_iff_of_sameRange hrange q).mp (h.pool.free_inRange q hq),
      h.pool.free_unused q hq⟩

/-- The range that starts at `65535` and wraps: one session is created and one expiry is run. -/
theorem sessionTable_repr_lastPort :
    ((((new 0 60000 65535 7).create {} 1 53 0).2.expire 10).2).Repr 65535 7 :=
  sessionTable_repr 0 60000 65535 7 (by decide)
    (.call (.expire 10) (.call (.create {} 1 53 0) .refl rfl) trivial)

end SessionTable

end VioletGateway
