import VioletGateway.Session.Invariant

/-!
# Sessions along a history

Session objects are immutable but for their activity time, and an address is never used twice. So a
session found at an address later on, if the address was already in use, is the session that was
there before (`Continues`). The relation holds across every call on the table and composes.
-/

set_option autoImplicit false

namespace VioletGateway

/-- The session with another activity time. -/
def Session.SameButTime (s s' : Session) : Prop := s' = { s with lastActiveMs := s'.lastActiveMs }

theorem Session.SameButTime.refl (s : Session) : s.SameButTime s := rfl

theorem Session.SameButTime.trans {s s' s'' : Session} (h : s.SameButTime s')
    (h' : s'.SameButTime s'') : s.SameButTime s'' := by
  rw [Session.SameButTime] at h h' ⊢
  rw [h', h]

namespace SessionTable

/-- `t'` is a later state of the table `t`. -/
structure Continues (t t' : SessionTable) : Prop where
  gatewayIp : t'.gatewayIp = t.gatewayIp
  nextPtr_le : t.nextPtr ≤ t'.nextPtr
  stable : ∀ p s', p < t.nextPtr → t'.heap p = some s' →
    ∃ s, t.heap p = some s ∧ s.SameButTime s'

theorem Continues.refl (t : SessionTable) : t.Continues t :=
  ⟨rfl, Nat.le_refl _, fun _ s' _ hs' => ⟨s', hs', .refl s'⟩⟩

theorem Continues.trans {t t' t'' : SessionTable} (h : t.Continues t') (h' : t'.Continues t'') :
    t.Continues t'' := by
  refine ⟨h'.gatewayIp.trans h.gatewayIp, Nat.le_trans h.nextPtr_le h'.nextPtr_le, ?_⟩
  intro p s'' hp hs''
  obtain ⟨s', hs', hsame'⟩ := h'.stable p s'' (Nat.lt_of_lt_of_le hp h.nextPtr_le) hs''
  obtain ⟨s, hs, hsame⟩ := h.stable p s' hp hs'
  exact ⟨s, hs, hsame.trans hsame'⟩

/-- `t'` holds no other sessions than `t`: some may have been touched, some removed. -/
structure Keeps (t t' : SessionTable) : Prop where
  gatewayIp : t'.gatewayIp = t.gatewayIp
  nextPtr : t'.nextPtr = t.nextPtr
  stable : ∀ p s', t'.heap p = some s' → ∃ s, t.heap p = some s ∧ s.SameButTime s'

theorem Keeps.refl (t : SessionTable) : t.Keeps t :=
  ⟨rfl, rfl, fun _ s' hs' => ⟨s', hs', .refl s'⟩⟩

theorem Keeps.trans {t t' t'' : SessionTable} (h : t.Keeps t') (h' : t'.Keeps t'') :
    t.Keeps t'' := by
  refine ⟨h'.gatewayIp.trans h.gatewayIp, h'.nextPtr.trans h.nextPtr, ?_⟩
  intro p s'' hs''
  obtain ⟨s', hs', hsame'⟩ := h'.stable p s'' hs''
  obtain ⟨s, hs, hsame⟩ := h.stable p s' hs'
  exact ⟨s, hs, hsame.trans hsame'⟩

theorem Keeps.continues {t t' : SessionTable} (h : t.Keeps t') : t.Continues t' :=
  ⟨h.gatewayIp, h.nextPtr.ge, fun p s' _ hs' => h.stable p s' hs'⟩

theorem keeps_touch (t : SessionTable) (o : Option SessionPtr) (now : UInt64) :
    t.Keeps (t.touch o now) := by
  refine ⟨touch_gatewayIp t o now, touch_nextPtr t o now, ?_⟩
  intro p s' hs'
  obtain ⟨s, hs, rfl⟩ := (touch_heap_iff t o now p s').mp hs'
  refine ⟨s, hs, ?_⟩
  split <;> exact rfl

theorem keeps_eraseSession (t : SessionTable) (p : SessionPtr) : t.Keeps (t.eraseSession p) := by
  refine ⟨?_, ?_, ?_⟩
  · rw [eraseSession]
    split <;> rfl
  · rw [eraseSession]
    split <;> rfl
  · intro q s hs
    -- the erased session is gone, the others are untouched
    rw [eraseSession_heap] at hs
    split_ifs at hs
    exact ⟨s, hs, .refl s⟩

theorem keeps_expire (t : SessionTable) (now : UInt64) : t.Keeps (t.expire now).2 :=
  expireLoop_invariant (P := t.Keeps) (fun u p _ hu => hu.trans (keeps_eraseSession u p)) _ 0 0
    (.refl t)

/-- After `create` the table holds the sessions it held before and perhaps a new one, at a new
address. -/
theorem create_heap {t : SessionTable} (h : t.Inv) {key : FlowKey} {ip : UInt32} {port : UInt16}
    {now : UInt64} {p : SessionPtr} {s : Session}
    (hs : (t.create key ip port now).2.heap p = some s) :
    t.heap p = some s ∨ (p = t.nextPtr ∧ (t.create key ip port now).1 = some p ∧
      ∃ snat, s = makeSession t.gatewayIp key ip port snat now) := by
  have hstep := create_cases h key ip port now
  generalize t.create key ip port now = r at hstep hs ⊢
  cases hstep with
  | exhausted => exact Or.inl hs
  | created =>
      rcases (addSession_heap_iff h _ p s).mp hs with ⟨rfl, rfl⟩ | hs
      · exact Or.inr ⟨rfl, rfl, _, rfl⟩
      · exact Or.inl hs

theorem continues_create {t : SessionTable} (h : t.Inv) (key : FlowKey) (ip : UInt32)
    (port : UInt16) (now : UInt64) : t.Continues (t.create key ip port now).2 := by
  refine ⟨?_, ?_, ?_⟩
  · have hstep := create_cases h key ip port now
    generalize t.create key ip port now = r at hstep ⊢
    cases hstep <;> rfl
  · have hstep := create_cases h key ip port now
    generalize t.create key ip port now = r at hstep ⊢
    cases hstep with
    | exhausted => exact Nat.le_refl _
    | created => exact Nat.le_succ _
  · intro p s' hp hs'
    rcases create_heap h hs' with hs | ⟨rfl, -⟩
    · exact ⟨s', hs, .refl s'⟩
    · exact absurd hp (Nat.lt_irrefl _)

end SessionTable

end VioletGateway
