import VioletGateway.Session.History
import VioletGateway.Support.Run

/-!
# Expiry of idle sessions

`expire` walks over the vector from which it erases. On a coherent table the loop is a filter
(`expireLoop_eq`): the idle sessions are erased one after the other, the others keep their place. What
that does to the maps and to the port pool is read off the erased sessions (`Expires`).

Coherence does not depend on the range of the ports, so nothing here asks for `snat_port_begin >= 1`.
-/

set_option autoImplicit false

namespace VioletGateway

open Support

/-! ## Elapsed time -/

/-- A difference with an earlier time is the time that has passed. -/
theorem elapsed_of_le {now stored : UInt64} (h : stored ≤ now) :
    (now - stored).toNat = now.toNat - stored.toNat := UInt64.toNat_sub_of_le now stored h

/-- A timeout has passed if the difference says so, provided that it does not wrap. -/
theorem timeout_iff {now stored : UInt64} (h : stored ≤ now) (timeout : UInt64) :
    now - stored ≥ timeout ↔ stored.toNat + timeout.toNat ≤ now.toNat := by
  have hle := UInt64.le_iff_toNat_le.mp h
  rw [ge_iff_le, UInt64.le_iff_toNat_le, elapsed_of_le h]
  omega

namespace SessionTable

/-! ## Coherence of reachable tables -/

/-- The pool may be replaced by one with more ports in use. -/
theorem setPool_coherent {t : SessionTable} (h : t.Coherent) {P : SnatPool} (hfree : P.FreeOk)
    (huse : ∀ q, t.pool.portInUse q = true → P.portInUse q = true) :
    ({ t with pool := P } : SessionTable).Coherent :=
  { h with
    owned := fun p s hs => ⟨(h.owned p s hs).1, huse _ (h.owned p s hs).2⟩
    free := hfree }

theorem create_coherent {t : SessionTable} (h : t.Coherent) {key : FlowKey}
    (hkey : t.lookupForward key = none) (ip : UInt32) (port : UInt16) (now : UInt64) :
    (t.create key ip port now).2.Coherent := by
  have halloc := SnatPool.allocSnatPort_any h.free
  rw [create]
  generalize t.pool.allocSnatPort = r at halloc
  cases halloc with
  | @failed Q huse hfree =>
      have hok : Q.FreeOk := ⟨by rw [hfree]; exact h.free.nodup, by rw [hfree, huse]; exact h.free.unused⟩
      exact setPool_coherent h hok fun q hq => by rw [huse]; exact hq
  | @taken p Q hunused huse hfree =>
      dsimp only
      split_ifs with hzero
      · -- port `0` is marked and not given out
        apply setPool_coherent h hfree
        intro q hq
        rw [huse]
        by_cases hqp : q = p
        · rw [hqp, Function.update_self]
        · rw [Function.update_of_ne hqp]
          exact hq
      · exact addSession_coherent h hfree hkey hzero hunused huse

theorem expire_coherent {t : SessionTable} (h : t.Coherent) (now : UInt64) :
    (t.expire now).2.Coherent :=
  expireLoop_invariant (P := Coherent) (fun _ p _ ht => eraseSession_coherent ht p) _ 0 0 h

theorem call_coherent {t : SessionTable} (h : t.Coherent) (c : Call) (hc : c.Allowed t) :
    (c.apply t).Coherent := by
  cases c with
  | lookupForward key => exact h
  | lookupReverse key => exact h
  | touch s now => exact touch_coherent h s now
  | expire now => exact expire_coherent h now
  | create key ip port now => exact create_coherent h hc ip port now

/-- Every table that allowed calls reach is coherent. -/
theorem coherent_of_reaches {t u : SessionTable} (h : t.Coherent) (hr : Reaches t u) : u.Coherent := by
  induction hr with
  | refl => exact h
  | call c _ hc ih => exact call_coherent ih c hc

/-! ## The loop -/

@[simp] theorem eraseSession_idleTimeoutMs (t : SessionTable) (p : SessionPtr) :
    (t.eraseSession p).idleTimeoutMs = t.idleTimeoutMs := by
  rw [eraseSession]
  split <;> rfl

/-- Erasing a session does not make another one idle. -/
theorem isIdle_eraseSession (t : SessionTable) (now : UInt64) {p q : SessionPtr} (hne : q ≠ p) :
    (t.eraseSession p).isIdle now q = t.isIdle now q := by
  simp only [isIdle]
  rw [eraseSession_heap, if_neg hne, eraseSession_idleTimeoutMs]

/-- The sessions of a list erased one after the other. -/
def eraseAll (t : SessionTable) (ps : List SessionPtr) : SessionTable := ps.foldl eraseSession t

/-- Erasing a session closes the vector up, so that the next session is at its index. -/
theorem eraseSession_of_split {t : SessionTable} (h : t.Coherent) {p : SessionPtr}
    {kept rest : List SessionPtr} (hsplit : t.sessions = kept ++ p :: rest) :
    (t.eraseSession p).sessions = kept ++ rest ∧ ∀ q ∈ rest, q ≠ p := by
  obtain ⟨s, hs⟩ := (h.live_iff p).mp (hsplit ▸ List.mem_append_right _ List.mem_cons_self)
  have hnodup : (kept ++ p :: rest).Nodup := hsplit ▸ h.nodup
  obtain ⟨-, hcons, hdisjoint⟩ := List.nodup_append.mp hnodup
  constructor
  · have hnot : p ∉ kept := fun hp => hdisjoint p hp p List.mem_cons_self rfl
    rw [eraseSession_of_heap hs]
    show t.sessions.erase p = _
    rw [hsplit, List.erase_append_right _ hnot, List.erase_cons_head]
  · rintro q hq rfl
    exact (List.nodup_cons.mp hcons).1 hq

/-- The loop of `expire` from index `i` erases the idle sessions from there on. -/
theorem expireLoop_eq (now : UInt64) (fuel : Nat) :
    ∀ (i removed : Nat) {t : SessionTable} (kept rest : List SessionPtr), t.Coherent →
      t.sessions = kept ++ rest → i = kept.length → rest.length ≤ fuel →
      expireLoop now fuel i removed t =
        (removed + (rest.filter (t.isIdle now)).length, t.eraseAll (rest.filter (t.isIdle now))) := by
  induction fuel with
  | zero =>
      intro i removed t kept rest _ _ _ hfuel
      obtain rfl := List.eq_nil_of_length_eq_zero (Nat.le_zero.mp hfuel)
      rfl
  | succ fuel ih =>
      intro i removed t kept rest h hsplit hi hfuel
      rw [expireLoop]
      cases rest with
      | nil =>
          have hnone : t.sessions[i]? = none := by
            rw [hsplit, List.append_nil, hi]
            exact List.getElem?_eq_none le_rfl
          rw [hnone]
          rfl
      | cons p rest =>
          have hget : t.sessions[i]? = some p := by
            rw [hsplit, hi, List.getElem?_append_right le_rfl, Nat.sub_self, List.getElem?_cons_zero]
          rw [hget]
          dsimp only
          cases hidle : t.isIdle now p with
          | true =>
              obtain ⟨herase, hne⟩ := eraseSession_of_split h hsplit
              have hrest : rest.filter ((t.eraseSession p).isIdle now) =
                  rest.filter (t.isIdle now) :=
                List.filter_congr fun q hq => isIdle_eraseSession t now (hne q hq)
              have hnext := ih i (removed + 1) kept rest (eraseSession_coherent h p) herase hi
                (Nat.le_of_succ_le_succ hfuel)
              rw [if_pos rfl, hnext, hrest, List.filter_cons_of_pos hidle, List.length_cons]
              refine Prod.ext ?_ rfl
              show removed + 1 + _ = removed + (_ + 1)
              omega
          | false =>
              rw [if_neg Bool.false_ne_true, List.filter_cons_of_neg (Bool.eq_false_iff.mp hidle)]
              refine ih (i + 1) removed (kept ++ [p]) rest h ?_ ?_ (Nat.le_of_succ_le_succ hfuel)
              · rw [hsplit, List.append_assoc, List.singleton_append]
              · rw [List.length_append, List.length_singleton, hi]

theorem expire_eq {t : SessionTable} (h : t.Coherent) (now : UInt64) :
    t.expire now =
      ((t.sessions.filter (t.isIdle now)).length, t.eraseAll (t.sessions.filter (t.isIdle now))) := by
  have hloop := expireLoop_eq now t.sessions.length 0 0 [] t.sessions h rfl rfl le_rfl
  rw [Nat.zero_add] at hloop
  exact hloop

/-! ## Erased sessions -/

theorem eraseAll_heap (ps : List SessionPtr) (q : SessionPtr) :
    ∀ t : SessionTable, (t.eraseAll ps).heap q = if q ∈ ps then none else t.heap q := by
  induction ps with
  | nil => exact fun _ => rfl
  | cons p ps ih =>
      intro t
      show ((t.eraseSession p).eraseAll ps).heap q = _
      rw [ih, eraseSession_heap]
      by_cases hq : q ∈ ps
      · rw [if_pos hq, if_pos (List.mem_cons_of_mem p hq)]
      · rw [if_neg hq]
        exact if_congr (by simp [hq]) rfl rfl

theorem eraseAll_coherent (ps : List SessionPtr) :
    ∀ {t : SessionTable}, t.Coherent → (t.eraseAll ps).Coherent := by
  induction ps with
  | nil => exact id
  | cons p ps ih => exact fun h => ih (eraseSession_coherent h p)

theorem eraseAll_sessions (ps : List SessionPtr) :
    ∀ {t : SessionTable}, t.Coherent → (t.eraseAll ps).sessions = t.sessions.filter (· ∉ ps) := by
  induction ps with
  | nil =>
      intro t _
      exact (List.filter_eq_self.mpr fun _ _ => by simp).symm
  | cons p ps ih =>
      intro t h
      have herase : (t.eraseSession p).sessions = t.sessions.filter (· ≠ p) := by
        cases hs : t.heap p with
        | none =>
            -- what is not allocated is not in the vector either
            have hnot : p ∉ t.sessions := fun hp => by
              obtain ⟨s, hs'⟩ := (h.live_iff p).mp hp
              cases hs.symm.trans hs'
            have hsame : t.eraseSession p = t := by simp only [eraseSession, hs]
            rw [hsame]
            refine (List.filter_eq_self.mpr fun q hq => ?_).symm
            simpa using fun heq : q = p => hnot (heq ▸ hq)
        | some s =>
            rw [eraseSession_of_heap hs]
            show t.sessions.erase p = _
            rw [h.nodup.erase_eq_filter]
            apply List.filter_congr
            intro q _
            by_cases hq : q = p <;> simp [hq]
      show ((t.eraseSession p).eraseAll ps).sessions = _
      rw [ih (eraseSession_coherent h p), herase, List.filter_filter]
      apply List.filter_congr
      intro q _
      by_cases hq : q = p <;> simp [hq]

/-- The ports of erased sessions go back to the pool, in this order. -/
theorem eraseAll_pool (l : List (SessionPtr × Session)) :
    ∀ {t : SessionTable}, t.Coherent → (∀ ps ∈ l, t.heap ps.1 = some ps.2) → (l.map Prod.fst).Nodup →
      (t.eraseAll (l.map Prod.fst)).pool.freePorts =
          t.pool.freePorts ++ l.map (fun ps => ps.2.snatPort) ∧
        ∀ q, (t.eraseAll (l.map Prod.fst)).pool.portInUse q = true ↔
          t.pool.portInUse q = true ∧ q ∉ l.map fun ps => ps.2.snatPort := by
  induction l with
  | nil =>
      intro t _ _ _
      simp [eraseAll]
  | cons x l ih =>
      intro t h hl hnodup
      obtain ⟨hne, huse⟩ := h.owned x.1 x.2 (hl x List.mem_cons_self)
      have hpool : (t.eraseSession x.1).pool = { t.pool with
          portInUse := Function.update t.pool.portInUse x.2.snatPort false
          freePorts := t.pool.freePorts ++ [x.2.snatPort] } := by
        rw [eraseSession_of_heap (hl x List.mem_cons_self)]
        exact SnatPool.freeSnatPort_of_inUse hne huse
      rw [List.map_cons, List.nodup_cons] at hnodup
      have hrest : ∀ ps ∈ l, (t.eraseSession x.1).heap ps.1 = some ps.2 := by
        intro ps hps
        have hps' : ps.1 ≠ x.1 := fun heq => hnodup.1 (heq ▸ List.mem_map_of_mem hps)
        rw [eraseSession_heap, if_neg hps']
        exact hl ps (List.mem_cons_of_mem x hps)
      obtain ⟨hfree, hin⟩ := ih (eraseSession_coherent h x.1) hrest hnodup.2
      rw [hpool] at hfree hin
      refine ⟨?_, fun q => ?_⟩
      · rw [List.map_cons, List.map_cons]
        apply hfree.trans
        rw [List.append_assoc, List.singleton_append]
      · apply (hin q).trans
        show Function.update t.pool.portInUse x.2.snatPort false q = true ∧ _ ↔ _
        rw [List.map_cons, List.mem_cons, not_or]
        by_cases hq : q = x.2.snatPort
        · simp [hq]
        · rw [Function.update_of_ne hq]
          exact and_congr_right fun _ => ⟨fun hmem => ⟨hq, hmem⟩, fun hmem => hmem.2⟩

/-! ## What `expire` does -/

end SessionTable

/-- The session has been idle for the timeout or longer. -/
def Session.idleAt (idleTimeoutMs nowMs : UInt64) (s : Session) : Bool :=
  decide (idleTimeoutMs.toNat ≤ nowMs.toNat - s.lastActiveMs.toNat)

namespace SessionTable

/-- The sessions that are idle at `nowMs`, in the order of `sessions_`. -/
def expired (t : SessionTable) (nowMs : UInt64) : List (SessionPtr × Session) :=
  t.live.filter fun ps => ps.2.idleAt t.idleTimeoutMs nowMs

/-- The sessions that are not. -/
def survivors (t : SessionTable) (nowMs : UInt64) : List (SessionPtr × Session) :=
  t.live.filter fun ps => !ps.2.idleAt t.idleTimeoutMs nowMs

/-- `r` is the result of removing exactly the idle sessions from `t`. -/
structure Expires (nowMs : UInt64) (t : SessionTable) (r : Nat × SessionTable) : Prop where
  /-- the idle sessions are counted -/
  count : r.1 = (t.expired nowMs).length
  /-- `sessions_` was the list of the live sessions, and is that list without the idle ones -/
  sessions_before : t.sessions = t.live.map Prod.fst
  sessions : r.2.sessions = (t.survivors nowMs).map Prod.fst
  /-- every survivor is unmodified -/
  live : r.2.live = t.survivors nowMs
  /-- the maps hold the keys of the survivors -/
  forward : r.2.forward.entries.Perm ((t.survivors nowMs).map fun ps => ⟨ps.2.forwardKey, ps.1⟩)
  reverse : r.2.reverse.entries.Perm ((t.survivors nowMs).map fun ps => ⟨ps.2.reverseKey, ps.1⟩)
  /-- the ports of the idle sessions are freed, and no others -/
  freePorts : r.2.pool.freePorts = t.pool.freePorts ++ (t.expired nowMs).map fun ps => ps.2.snatPort
  portInUse : ∀ q, r.2.pool.portInUse q = true ↔
    t.pool.portInUse q = true ∧ q ∉ (t.expired nowMs).map fun ps => ps.2.snatPort
  /-- both lookups miss on the keys of a removed session -/
  misses : ∀ ps ∈ t.expired nowMs,
    r.2.lookupForward ps.2.forwardKey = none ∧ r.2.lookupReverse ps.2.reverseKey = none

/-- The test of the loop, if no session was active after `now`. -/
theorem isIdle_of_heap {t : SessionTable} {now : UInt64} {p : SessionPtr} {s : Session}
    (hs : t.heap p = some s) (hle : s.lastActiveMs ≤ now) :
    t.isIdle now p = s.idleAt t.idleTimeoutMs now := by
  have hnat := UInt64.le_iff_toNat_le.mp hle
  rw [isIdle, Session.idleAt, hs]
  apply decide_eq_decide.mpr
  rw [timeout_iff hle]
  omega

/-- The live sessions of a table whose vector and heap are known. -/
theorem live_eq {u : SessionTable} {l : List (SessionPtr × Session)}
    (hsessions : u.sessions = l.map Prod.fst) (hheap : ∀ ps ∈ l, u.heap ps.1 = some ps.2) :
    u.live = l := by
  rw [live, hsessions, List.filterMap_map]
  refine (List.filterMap_congr fun ps hps => ?_).trans List.filterMap_some
  simp [hheap ps hps]

/-- A key belongs to one session only, since a map finds it. -/
theorem key_inj {m : AList fun _ : FlowKey => SessionPtr} {f : Session → FlowKey}
    {heap : SessionPtr → Option Session}
    (hm : ∀ k p, m.lookup k = some p ↔ ∃ s, heap p = some s ∧ f s = k) (p p' : SessionPtr)
    (s s' : Session) (hs : heap p = some s) (hs' : heap p' = some s') (hkey : f s = f s') : p = p' := by
  have hl := (hm (f s') p).mpr ⟨s, hs, hkey⟩
  have hl' := (hm (f s') p').mpr ⟨s', hs', rfl⟩
  exact Option.some.inj (hl.symm.trans hl')

/-- A map that finds the live sessions under their keys misses on the key of one that is gone. -/
theorem lookup_none_of_gone {m : AList fun _ : FlowKey => SessionPtr} {f : Session → FlowKey}
    {heap heap' : SessionPtr → Option Session}
    (hm : ∀ k p, m.lookup k = some p ↔ ∃ s, heap' p = some s ∧ f s = k)
    (hinj : ∀ p p' s s', heap p = some s → heap p' = some s' → f s = f s' → p = p')
    (hsub : ∀ p s, heap' p = some s → heap p = some s) {p : SessionPtr} {s : Session}
    (hs : heap p = some s) (hgone : heap' p = none) : m.lookup (f s) = none := by
  cases hl : m.lookup (f s) with
  | none => rfl
  | some q =>
      obtain ⟨u, hu, hkey⟩ := (hm _ q).mp hl
      obtain rfl := hinj q p u s (hsub q u hu) hs hkey
      cases hgone.symm.trans hu

section Expire

variable {t : SessionTable} (h : t.Coherent)

theorem heap_of_eraseAll {ps : List SessionPtr} {p : SessionPtr} {s : Session}
    (hs : (t.eraseAll ps).heap p = some s) : t.heap p = some s := by
  rw [eraseAll_heap] at hs
  split_ifs at hs
  exact hs

include h

theorem heap_of_mem_expired {now : UInt64} {ps : SessionPtr × Session} (hps : ps ∈ t.expired now) :
    t.heap ps.1 = some ps.2 :=
  (mem_live h ps.1 ps.2).mp (List.mem_of_mem_filter hps)

variable {now : UInt64} (hnow : ∀ p s, t.heap p = some s → s.lastActiveMs ≤ now)
include hnow

theorem isIdle_of_mem_live {ps : SessionPtr × Session} (hps : ps ∈ t.live) :
    t.isIdle now ps.1 = ps.2.idleAt t.idleTimeoutMs now := by
  have hs := (mem_live h ps.1 ps.2).mp hps
  exact isIdle_of_heap hs (hnow _ _ hs)

/-- The pointers that the loop erases are those of the idle sessions. -/
theorem filter_isIdle : t.sessions.filter (t.isIdle now) = (t.expired now).map Prod.fst := by
  rw [← map_fst_live h, List.filter_map]
  exact congrArg _ (List.filter_congr fun ps hps => isIdle_of_mem_live h hnow hps)

theorem eraseAll_expired_sessions :
    (t.eraseAll ((t.expired now).map Prod.fst)).sessions = (t.survivors now).map Prod.fst := by
  have hkept : (t.sessions.filter fun p => !t.isIdle now p) = (t.survivors now).map Prod.fst := by
    rw [← map_fst_live h, List.filter_map]
    refine congrArg _ (List.filter_congr fun ps hps => ?_)
    exact congrArg (!·) (isIdle_of_mem_live h hnow hps)
  rw [eraseAll_sessions _ h, ← filter_isIdle h hnow, ← hkept]
  apply List.filter_congr
  intro p hp
  cases hp' : t.isIdle now p <;> simp [hp, hp']

theorem eraseAll_expired_live :
    (t.eraseAll ((t.expired now).map Prod.fst)).live = t.survivors now := by
  have hsessions := eraseAll_expired_sessions h hnow
  have hu := eraseAll_coherent ((t.expired now).map Prod.fst) h
  apply live_eq hsessions
  intro ps hps
  obtain ⟨s, hs⟩ := (hu.live_iff ps.1).mp (hsessions ▸ List.mem_map_of_mem hps)
  rw [hs, ← heap_of_eraseAll hs]
  exact (mem_live h ps.1 ps.2).mp (List.mem_of_mem_filter hps)

/-- On a coherent table, `expire` removes exactly the idle sessions. -/
theorem expire_expires : t.Expires now (t.expire now) := by
  have hu := eraseAll_coherent ((t.expired now).map Prod.fst) h
  have hlive := eraseAll_expired_live h hnow
  have hnodup : ((t.expired now).map Prod.fst).Nodup := filter_isIdle h hnow ▸ h.nodup.filter _
  obtain ⟨hfree, hin⟩ :=
    eraseAll_pool (t.expired now) h (fun ps hps => heap_of_mem_expired h hps) hnodup
  rw [expire_eq h, filter_isIdle h hnow]
  refine ⟨List.length_map _, (map_fst_live h).symm, eraseAll_expired_sessions h hnow, hlive, ?_, ?_,
    hfree, hin, ?_⟩
  · rw [← hlive]
    exact entries_perm_live hu hu.forward_iff
  · rw [← hlive]
    exact entries_perm_live hu hu.reverse_iff
  · intro ps hps
    have hs := heap_of_mem_expired h hps
    have hnone : (t.eraseAll ((t.expired now).map Prod.fst)).heap ps.1 = none := by
      rw [eraseAll_heap, if_pos (List.mem_map_of_mem hps)]
    have hsub : ∀ p s, (t.eraseAll ((t.expired now).map Prod.fst)).heap p = some s →
        t.heap p = some s := fun p s => heap_of_eraseAll
    exact ⟨lookup_none_of_gone hu.forward_iff (key_inj h.forward_iff) hsub hs hnone,
      lookup_none_of_gone hu.reverse_iff (key_inj h.reverse_iff) hsub hs hnone⟩

end Expire

/-! ## Sessions in use -/

/-- The time of a call that has one. -/
def Call.time : Call → Option UInt64
  | .lookupForward _ | .lookupReverse _ => none
  | .touch _ nowMs | .expire nowMs | .create _ _ _ nowMs => some nowMs

theorem create_idleTimeoutMs (t : SessionTable) (key : FlowKey) (ip : UInt32) (port : UInt16)
    (now : UInt64) : (t.create key ip port now).2.idleTimeoutMs = t.idleTimeoutMs := by
  rw [create]
  dsimp only
  split_ifs <;> rfl

theorem call_idleTimeoutMs (t : SessionTable) (c : Call) :
    (c.apply t).idleTimeoutMs = t.idleTimeoutMs := by
  cases c with
  | lookupForward key => rfl
  | lookupReverse key => rfl
  | touch o now => cases o <;> rfl
  | expire now =>
      exact expireLoop_invariant (P := fun u => u.idleTimeoutMs = t.idleTimeoutMs)
        (fun u p _ hu => (eraseSession_idleTimeoutMs u p).trans hu) _ 0 0 rfl
  | create key ip port now => exact create_idleTimeoutMs t key ip port now

/-- A session that is there stays as it is when another one is created. -/
theorem create_heap_of_some {t : SessionTable} (h : t.Coherent) {p : SessionPtr} {s : Session}
    (hs : t.heap p = some s) (key : FlowKey) (ip : UInt32) (port : UInt16) (now : UInt64) :
    (t.create key ip port now).2.heap p = some s := by
  have hne : p ≠ t.nextPtr := by
    rintro rfl
    cases h.heap_nextPtr.symm.trans hs
  rw [create]
  dsimp only
  split_ifs
  · exact hs
  · exact (Function.update_of_ne hne _ _).trans hs

/-- The session at `p` was last active between `since` and `until'`. -/
def ActiveIn (since until' : UInt64) (p : SessionPtr) (t : SessionTable) : Prop :=
  ∃ s, t.heap p = some s ∧ since ≤ s.lastActiveMs ∧ s.lastActiveMs ≤ until'

/-- A call made before the timeout has passed keeps the session. -/
theorem call_activeIn {t : SessionTable} (h : t.Coherent) {since cur : UInt64} {p : SessionPtr}
    (hactive : t.ActiveIn since cur p) (c : Call)
    (htime : ∀ now, c.time = some now →
      cur ≤ now ∧ now.toNat < since.toNat + t.idleTimeoutMs.toNat) :
    (c.apply t).ActiveIn since (c.time.getD cur) p := by
  obtain ⟨s, hs, hsince, hcur⟩ := hactive
  have hkept : ∀ {now : UInt64}, cur ≤ now → s.lastActiveMs ≤ now :=
    fun hle => UInt64.le_trans hcur hle
  cases c with
  | lookupForward key => exact ⟨s, hs, hsince, hcur⟩
  | lookupReverse key => exact ⟨s, hs, hsince, hcur⟩
  | touch o now =>
      obtain ⟨hle, -⟩ := htime now rfl
      refine ⟨_, (touch_heap_iff t o now p _).mpr ⟨s, hs, rfl⟩, ?_⟩
      split_ifs
      · exact ⟨UInt64.le_trans hsince (hkept hle), UInt64.le_refl now⟩
      · exact ⟨hsince, hkept hle⟩
  | expire now =>
      obtain ⟨hle, hlt⟩ := htime now rfl
      rcases t.expire_heap now p with hsame | ⟨-, hidle⟩
      · exact ⟨s, hsame.trans hs, hsince, hkept hle⟩
      · -- it would have to be idle since before `since`
        have hnat := UInt64.le_iff_toNat_le.mp hsince
        have hnat' := UInt64.le_iff_toNat_le.mp (hkept hle)
        rw [isIdle_of_heap hs (hkept hle), Session.idleAt, decide_eq_true_eq] at hidle
        omega
  | create key ip port now =>
      obtain ⟨hle, -⟩ := htime now rfl
      exact ⟨s, create_heap_of_some h hs key ip port now, hsince, hkept hle⟩

/-- A session is not removed before the timeout has passed since it was active. -/
theorem run_activeIn {since : UInt64} {p : SessionPtr} (cs : List Call) :
    ∀ {t : SessionTable} {cur : UInt64}, t.Coherent → t.ActiveIn since cur p →
      Along Call.apply Call.Allowed t cs → (cur :: cs.filterMap Call.time).Pairwise (· ≤ ·) →
      (∀ now ∈ cs.filterMap Call.time, now.toNat < since.toNat + t.idleTimeoutMs.toNat) →
      p ∈ (run Call.apply t cs).sessions := by
  induction cs with
  | nil =>
      rintro t cur h ⟨s, hs, -⟩ _ _ _
      exact (h.live_iff p).mpr ⟨s, hs⟩
  | cons c cs ih =>
      rintro t cur h hactive ⟨hc, hallowed⟩ hclock hsoon
      have hnext := call_activeIn h hactive c
      cases htime : c.time with
      | none =>
          rw [List.filterMap_cons_none htime] at hclock hsoon
          rw [htime] at hnext
          apply ih (call_coherent h c hc) (hnext nofun) hallowed hclock
          rw [call_idleTimeoutMs]
          exact hsoon
      | some now =>
          rw [List.filterMap_cons_some htime] at hclock hsoon
          rw [htime] at hnext
          obtain ⟨hle, hclock⟩ := List.pairwise_cons.mp hclock
          refine ih (call_coherent h c hc) (hnext ?_) hallowed hclock ?_
          · rintro now' hnow'
            obtain rfl := Option.some.inj hnow'
            exact ⟨hle now List.mem_cons_self, hsoon now List.mem_cons_self⟩
          · rw [call_idleTimeoutMs]
            exact fun now' hnow' => hsoon now' (List.mem_cons_of_mem now hnow')

end SessionTable

end VioletGateway
