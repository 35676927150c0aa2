import Mathlib.Tactic

/-!
# The SNAT port pool of the session table

`SnatPool` groups the fields of `SessionTable` that `alloc_snat_port` and `free_snat_port` work on:
the normalised range, the cursor `snat_next_`, the LIFO list `free_ports_` and the bitmap
`port_in_use_`. A port is taken from the back of the free list if there is one and otherwise by
scanning from the cursor.

`SnatPool.Inv` relates the five fields. Under it, `allocSnatPort` hands out an unused port of the
range whenever there is one and returns `0` otherwise (`allocSnatPort_spec`). The range of one port
that starts at `65535` is stored with `snat_end_ = 0`; the scan then stays on that port, since every
increment of the cursor wraps and is reset.
-/

set_option autoImplicit false

namespace VioletGateway

/-- The port-allocation fields of `SessionTable`. -/
structure SnatPool where
  snatBegin : UInt16
  snatEnd : UInt16
  snatNext : UInt16
  freePorts : List UInt16
  portInUse : UInt16 → Bool

namespace SnatPool

/-- The pool fields as the constructor of `SessionTable` sets them. -/
def new (snatPortBegin snatPortEnd : UInt16) : SnatPool where
  snatBegin := snatPortBegin
  snatEnd := if snatPortEnd ≤ snatPortBegin then snatPortBegin + 1 else snatPortEnd
  snatNext := snatPortBegin
  freePorts := []
  portInUse := fun _ => false

/-- The bound of the scan, `static_cast<uint32_t>(snat_end_ - snat_begin_)`; the difference is an
`int` and may be negative. -/
def scanTries (P : SnatPool) : Nat := (((P.snatEnd.toNat : Int) - P.snatBegin.toNat) % 2 ^ 32).toNat

/-- `++snat_next_`, reset to the start of the range at its end. -/
def advance (P : SnatPool) : SnatPool :=
  let next := P.snatNext + 1
  { P with snatNext := if next ≥ P.snatEnd then P.snatBegin else next }

/-- `port_in_use_[p] = 1`. -/
def markInUse (P : SnatPool) (p : UInt16) : SnatPool :=
  { P with portInUse := Function.update P.portInUse p true }

/-- The loop of `alloc_snat_port`; `0` when every try found a port in use. -/
def scanSnatPort : Nat → SnatPool → UInt16 × SnatPool
  | 0, P => (0, P)
  | tries + 1, P =>
    let p := P.snatNext
    if P.portInUse p then scanSnatPort tries P.advance
    else (p, P.advance.markInUse p)

/-- `alloc_snat_port`. -/
def allocSnatPort (P : SnatPool) : UInt16 × SnatPool :=
  match P.freePorts.getLast? with
  -- `free_ports_` is a stack
  | some p => (p, { P with freePorts := P.freePorts.dropLast }.markInUse p)
  | none => scanSnatPort P.scanTries P

/-- `port_in_use_.size()`. -/
def portInUseSize : Nat := 65536

/-- `free_snat_port`. -/
def freeSnatPort (P : SnatPool) (port : UInt16) : SnatPool :=
  -- the second test is there for other sizes of the bitmap
  if port = 0 ∨ port.toNat ≥ portInUseSize then P
  -- a port that is not in use is not put on the stack a second time
  else if P.portInUse port then
    { P with portInUse := Function.update P.portInUse port false
             freePorts := P.freePorts ++ [port] }
  else P

/-! ## The range -/

/-- Number of ports of the range. -/
def capacity (P : SnatPool) : Nat :=
  if P.snatBegin < P.snatEnd then P.snatEnd.toNat - P.snatBegin.toNat else 1

/-- `q` is a port of the range. -/
def InRange (P : SnatPool) (q : UInt16) : Prop :=
  P.snatBegin.toNat ≤ q.toNat ∧ q.toNat < P.snatBegin.toNat + P.capacity

/-- The shape of a normalised range: a proper one, or the single port `65535` with its end wrapped. -/
structure RangeOk (P : SnatPool) : Prop where
  begin_pos : 1 ≤ P.snatBegin.toNat
  shape : P.snatBegin.toNat < P.snatEnd.toNat ∨
    (P.snatBegin.toNat = 65535 ∧ P.snatEnd.toNat = 0)

theorem capacity_pos (P : SnatPool) : 0 < P.capacity := by
  rw [capacity]
  split
  · have h : P.snatBegin.toNat < P.snatEnd.toNat := UInt16.lt_iff_toNat_lt.mp ‹_›
    omega
  · omega

theorem RangeOk.fits {P : SnatPool} (h : P.RangeOk) :
    P.snatBegin.toNat + P.capacity ≤ 65536 ∧
      (P.snatEnd.toNat = P.snatBegin.toNat + P.capacity ∨
        (P.snatEnd.toNat = 0 ∧ P.snatBegin.toNat = 65535 ∧ P.capacity = 1)) := by
  have he := P.snatEnd.toNat_lt
  rw [capacity]
  rcases h.shape with hlt | ⟨hb, h0⟩
  · rw [if_pos (UInt16.lt_iff_toNat_lt.mpr hlt)]
    omega
  · have hnot : ¬ P.snatBegin < P.snatEnd := by
      rw [UInt16.lt_iff_toNat_lt]
      omega
    rw [if_neg hnot]
    omega

/-- The scan makes at least one try per port of the range. -/
theorem RangeOk.capacity_le_scanTries {P : SnatPool} (h : P.RangeOk) :
    P.capacity ≤ P.scanTries := by
  have he := P.snatEnd.toNat_lt
  obtain ⟨-, hend | ⟨hend, hbegin, hcap⟩⟩ := h.fits
  · rw [scanTries, hend]
    have hc : P.capacity < 2 ^ 32 := by omega
    omega
  -- the end has wrapped to zero: a negative difference, hence a bound far above one
  · rw [scanTries, hend, hbegin, hcap]
    decide

/-! ## The invariant -/

/-- Representation invariant of the pool. -/
structure Inv (P : SnatPool) : Prop where
  range : P.RangeOk
  next_inRange : P.InRange P.snatNext
  inUse_inRange : ∀ q, P.portInUse q = true → P.InRange q
  free_nodup : P.freePorts.Nodup
  free_inRange : ∀ q ∈ P.freePorts, P.InRange q
  free_unused : ∀ q ∈ P.freePorts, P.portInUse q = false

/-- The part of the invariant that does not depend on the range. -/
structure FreeOk (P : SnatPool) : Prop where
  nodup : P.freePorts.Nodup
  unused : ∀ q ∈ P.freePorts, P.portInUse q = false

theorem Inv.freeOk {P : SnatPool} (h : P.Inv) : P.FreeOk := ⟨h.free_nodup, h.free_unused⟩

/-- Two pools with the same range. -/
def SameRange (P Q : SnatPool) : Prop := P.snatBegin = Q.snatBegin ∧ P.snatEnd = Q.snatEnd

theorem SameRange.refl (P : SnatPool) : SameRange P P := ⟨rfl, rfl⟩

theorem SameRange.trans {P Q R : SnatPool} (h : SameRange P Q) (h' : SameRange Q R) :
    SameRange P R :=
  ⟨h.1.trans h'.1, h.2.trans h'.2⟩

theorem SameRange.capacity {P Q : SnatPool} (h : SameRange P Q) : P.capacity = Q.capacity := by
  simp only [SnatPool.capacity, h.1, h.2]

theorem SameRange.inRange {P Q : SnatPool} (h : SameRange P Q) (q : UInt16) :
    P.InRange q ↔ Q.InRange q := by
  simp only [InRange, h.capacity, h.1]

theorem SameRange.rangeOk {P Q : SnatPool} (h : SameRange P Q) (hQ : Q.RangeOk) : P.RangeOk :=
  ⟨by rw [h.1]; exact hQ.begin_pos, by rw [h.1, h.2]; exact hQ.shape⟩

theorem InRange.ne_zero {P : SnatPool} {q : UInt16} (h : P.InRange q) (hr : P.RangeOk) : q ≠ 0 := by
  rintro rfl
  have h1 := hr.begin_pos
  have h2 := h.1
  simp at h2
  omega

theorem new_range (b e : UInt16) (hb : 1 ≤ b.toNat) : (new b e).RangeOk := by
  refine ⟨hb, ?_⟩
  have hbl := b.toNat_lt
  show b.toNat < (if e ≤ b then b + 1 else e).toNat ∨ _
  split
  · show b.toNat < (b + 1).toNat ∨ (b.toNat = 65535 ∧ (if e ≤ b then b + 1 else e).toNat = 0)
    rw [if_pos ‹_›, UInt16.toNat_add]
    have h1 : (1 : UInt16).toNat = 1 := rfl
    rw [h1]
    omega
  · have hlt : ¬ e.toNat ≤ b.toNat := fun h => ‹¬ e ≤ b› (UInt16.le_iff_toNat_le.mpr h)
    exact Or.inl (by omega)

theorem new_inv (b e : UInt16) (hb : 1 ≤ b.toNat) : (new b e).Inv where
  range := new_range b e hb
  next_inRange := ⟨Nat.le_refl _, Nat.lt_add_of_pos_right (capacity_pos _)⟩
  inUse_inRange := by intro q hq; simp [new] at hq
  free_nodup := List.nodup_nil
  free_inRange := by intro q hq; simp [new] at hq
  free_unused := by intro q hq; simp [new] at hq

/-- The capacity in terms of the constructor arguments. -/
theorem capacity_new (b e : UInt16) :
    (new b e).capacity = if b < e then e.toNat - b.toNat else 1 := by
  have hbl := b.toNat_lt
  by_cases h : b < e
  · have hlt : b.toNat < e.toNat := UInt16.lt_iff_toNat_lt.mp h
    have hle : ¬ e ≤ b := by
      rw [UInt16.le_iff_toNat_le]
      omega
    simp [capacity, new, hle, h]
  · have hlt : ¬ b.toNat < e.toNat := fun h' => h (UInt16.lt_iff_toNat_lt.mpr h')
    have hle : e ≤ b := by
      rw [UInt16.le_iff_toNat_le]
      omega
    have hsum : (b + 1).toNat = (b.toNat + 1) % 65536 := UInt16.toNat_add b 1
    rw [if_neg h]
    -- the normalised end is `begin + 1`, wrapped to zero at the top of the port space
    rw [capacity]
    simp only [new, if_pos hle]
    split
    · rw [hsum]
      have hlt' := UInt16.lt_iff_toNat_lt.mp ‹b < b + 1›
      rw [hsum] at hlt'
      omega
    · rfl

/-! ## The cursor scan -/

theorem advance_sameRange (P : SnatPool) : SameRange P.advance P := ⟨rfl, rfl⟩

theorem markInUse_sameRange (P : SnatPool) (p : UInt16) : SameRange (P.markInUse p) P := ⟨rfl, rfl⟩

/-- Offset of the cursor in the range. -/
def cursor (P : SnatPool) : Nat := P.snatNext.toNat - P.snatBegin.toNat

/-- Advancing moves the cursor by one, cyclically. -/
theorem advance_next {P : SnatPool} (hr : P.RangeOk) (hn : P.InRange P.snatNext) :
    P.advance.snatNext.toNat = P.snatBegin.toNat + (P.cursor + 1) % P.capacity := by
  obtain ⟨hfit, hend⟩ := hr.fits
  obtain ⟨hlo, hhi⟩ := hn
  have hpos := P.capacity_pos
  have hlt16 := P.snatEnd.toNat_lt
  have hsum : (P.snatNext + 1).toNat = (P.snatNext.toNat + 1) % 65536 := UInt16.toNat_add _ 1
  have hge : P.snatNext + 1 ≥ P.snatEnd ↔ P.snatEnd.toNat ≤ (P.snatNext.toNat + 1) % 65536 := by
    rw [ge_iff_le, UInt16.le_iff_toNat_le, hsum]
  show (if P.snatNext + 1 ≥ P.snatEnd then P.snatBegin else P.snatNext + 1).toNat = _
  rw [cursor]
  -- only the last port of the range wraps
  by_cases hlast : P.snatNext.toNat + 1 = P.snatBegin.toNat + P.capacity
  · have hwrap : P.snatNext + 1 ≥ P.snatEnd := by
      rw [hge]
      omega
    have hmod : P.snatNext.toNat - P.snatBegin.toNat + 1 = P.capacity := by omega
    rw [if_pos hwrap, hmod, Nat.mod_self]
    omega
  · have hno : ¬ P.snatNext + 1 ≥ P.snatEnd := by
      rw [hge]
      omega
    have hlt : P.snatNext.toNat - P.snatBegin.toNat + 1 < P.capacity := by omega
    rw [if_neg hno, hsum, Nat.mod_eq_of_lt hlt]
    omega

theorem advance_next_inRange {P : SnatPool} (hr : P.RangeOk) (hn : P.InRange P.snatNext) :
    P.advance.InRange P.advance.snatNext := by
  rw [(advance_sameRange P).inRange, InRange, advance_next hr hn]
  have hlt := Nat.mod_lt (P.cursor + 1) P.capacity_pos
  omega

theorem advance_cursor {P : SnatPool} (hr : P.RangeOk) (hn : P.InRange P.snatNext) :
    P.advance.cursor = (P.cursor + 1) % P.capacity := by
  show P.advance.snatNext.toNat - P.snatBegin.toNat = _
  rw [advance_next hr hn]
  omega

theorem advance_inv {P : SnatPool} (h : P.Inv) : P.advance.Inv where
  range := (advance_sameRange P).rangeOk h.range
  next_inRange := advance_next_inRange h.range h.next_inRange
  inUse_inRange := fun q hq => ((advance_sameRange P).inRange q).mpr (h.inUse_inRange q hq)
  free_nodup := h.free_nodup
  free_inRange := fun q hq => ((advance_sameRange P).inRange q).mpr (h.free_inRange q hq)
  free_unused := h.free_unused

theorem FreeOk.markInUse {P : SnatPool} (h : P.FreeOk) {p : UInt16} (hp : p ∉ P.freePorts) :
    (P.markInUse p).FreeOk := by
  refine ⟨h.nodup, ?_⟩
  intro q hq
  have hqp : q ≠ p := by
    rintro rfl
    exact hp hq
  simp only [SnatPool.markInUse, Function.update_of_ne hqp]
  exact h.unused q hq

/-- Popping a port leaves the rest of the stack in order. -/
theorem FreeOk.pop {P : SnatPool} (h : P.FreeOk) {p : UInt16} (hlast : P.freePorts.getLast? = some p) :
    ({ P with freePorts := P.freePorts.dropLast } : SnatPool).FreeOk ∧ p ∉ P.freePorts.dropLast := by
  have hsplit : P.freePorts.dropLast ++ [p] = P.freePorts := List.dropLast_append_getLast? p hlast
  have hnd : (P.freePorts.dropLast ++ [p]).Nodup := by
    rw [hsplit]
    exact h.nodup
  refine ⟨⟨(List.nodup_append.mp hnd).1, fun q hq => h.unused q (List.mem_of_mem_dropLast hq)⟩, ?_⟩
  intro hin
  exact (List.nodup_append.mp hnd).2.2 p hin p (List.mem_singleton_self p) rfl

theorem markInUse_inv {P : SnatPool} {p : UInt16} (h : P.Inv) (hp : P.InRange p)
    (hfree : p ∉ P.freePorts) : (P.markInUse p).Inv where
  range := (markInUse_sameRange P p).rangeOk h.range
  next_inRange := h.next_inRange
  inUse_inRange := by
    intro q hq
    by_cases hqp : q = p
    · subst hqp
      exact hp
    · simp only [markInUse, Function.update_of_ne hqp] at hq
      exact h.inUse_inRange q hq
  free_nodup := h.free_nodup
  free_inRange := h.free_inRange
  free_unused := (h.freeOk.markInUse hfree).unused

/-- What an allocation does: it returns `0` and changes no port while the whole range is in use, or
it marks an unused port of the range. -/
inductive AllocStep (P : SnatPool) : UInt16 × SnatPool → Prop
  | exhausted {Q : SnatPool} (hall : ∀ q, P.InRange q → P.portInUse q = true)
      (hrange : SameRange Q P) (huse : Q.portInUse = P.portInUse)
      (hfree : Q.freePorts = P.freePorts) (hinv : Q.Inv) : AllocStep P (0, Q)
  | taken {p : UInt16} {Q : SnatPool} (hp : P.InRange p) (hunused : P.portInUse p = false)
      (hrange : SameRange Q P) (huse : Q.portInUse = Function.update P.portInUse p true)
      (hinv : Q.Inv) : AllocStep P (p, Q)

/-- The scan either marks an unused port of the range, or it has seen the next `n` ports from the
cursor on, all of them in use. -/
theorem scanSnatPort_cases (n : Nat) : ∀ {P : SnatPool}, P.Inv → P.freePorts = [] →
    (∃ p Q, scanSnatPort n P = (p, Q) ∧ P.InRange p ∧ P.portInUse p = false ∧ SameRange Q P ∧
      Q.portInUse = Function.update P.portInUse p true ∧ Q.Inv) ∨
    (∃ Q, scanSnatPort n P = (0, Q) ∧ SameRange Q P ∧ Q.portInUse = P.portInUse ∧
      Q.freePorts = P.freePorts ∧ Q.Inv ∧
      ∀ k < n, ∀ q : UInt16, q.toNat = P.snatBegin.toNat + (P.cursor + k) % P.capacity →
        P.portInUse q = true) := by
  induction n with
  | zero =>
      intro P hP _
      exact Or.inr ⟨P, rfl, ⟨rfl, rfl⟩, rfl, rfl, hP, fun k hk => absurd hk (by omega)⟩
  | succ n ih =>
      intro P hP hfree
      by_cases huse : P.portInUse P.snatNext = true
      · -- the port under the cursor is in use: the rest of the scan runs from the next cursor
        have hstep : scanSnatPort (n + 1) P = scanSnatPort n P.advance := by
          simp only [scanSnatPort, if_pos huse]
        rw [hstep]
        have hsame := advance_sameRange P
        rcases ih (advance_inv hP) hfree with
          ⟨p, Q, hscan, hp, hun, hrange, hu, hinv⟩ | ⟨Q, hscan, hrange, hu, hf, hinv, hseen⟩
        · exact Or.inl ⟨p, Q, hscan, (hsame.inRange p).mp hp, hun, hrange, hu, hinv⟩
        · refine Or.inr ⟨Q, hscan, hrange, hu, hf, hinv, ?_⟩
          intro k hk q hq
          -- the first try is the port under the cursor, the others belong to the rest of the scan
          cases k with
          | zero =>
              have hnext := hP.next_inRange
              have hcur : P.cursor < P.capacity := by
                rw [cursor]
                have h1 := hnext.1
                have h2 := hnext.2
                omega
              rw [Nat.add_zero, Nat.mod_eq_of_lt hcur] at hq
              have hqn : q = P.snatNext := by
                apply UInt16.toNat.inj
                rw [hq]
                rw [cursor]
                have h1 := hnext.1
                omega
              rw [hqn]
              exact huse
          | succ k =>
              apply hseen k (by omega) q
              rw [hq, advance_cursor hP.range hP.next_inRange, hsame.capacity]
              show _ = P.snatBegin.toNat + _
              rw [Nat.mod_add_mod]
              congr 2
              omega
      · have hun : P.portInUse P.snatNext = false := by simpa using huse
        refine Or.inl ⟨P.snatNext, P.advance.markInUse P.snatNext, ?_, hP.next_inRange, hun,
          ⟨rfl, rfl⟩, rfl, ?_⟩
        · simp [scanSnatPort, hun]
        · refine markInUse_inv (advance_inv hP) ?_ ?_
          · exact ((advance_sameRange P).inRange _).mpr hP.next_inRange
          · show P.snatNext ∉ P.freePorts
            rw [hfree]
            exact List.not_mem_nil

/-- Allocation hands out an unused port of the range, or `0` when there is none. -/
theorem allocSnatPort_spec {P : SnatPool} (hP : P.Inv) : AllocStep P P.allocSnatPort := by
  rw [allocSnatPort]
  cases hlast : P.freePorts.getLast? with
  | some p =>
      -- a port from the stack is unused, and popping it leaves the other entries alone
      have hmem : p ∈ P.freePorts := List.mem_of_getLast? hlast
      obtain ⟨hpopped, hnot⟩ := hP.freeOk.pop hlast
      have hpop : ({ P with freePorts := P.freePorts.dropLast } : SnatPool).Inv :=
        { range := ⟨hP.range.begin_pos, hP.range.shape⟩
          next_inRange := hP.next_inRange
          inUse_inRange := hP.inUse_inRange
          free_nodup := hpopped.nodup
          free_inRange := fun q hq => hP.free_inRange q (List.mem_of_mem_dropLast hq)
          free_unused := hpopped.unused }
      refine .taken (hP.free_inRange p hmem) (hP.free_unused p hmem) ⟨rfl, rfl⟩ rfl ?_
      exact markInUse_inv hpop (hP.free_inRange p hmem) hnot
  | none =>
      -- nothing was freed yet, so only the scan can find a port
      have hfree : P.freePorts = [] := List.getLast?_eq_none_iff.mp hlast
      show AllocStep P (scanSnatPort P.scanTries P)
      rcases scanSnatPort_cases P.scanTries hP hfree with
        ⟨p, Q, hscan, hp, hun, hrange, hu, hinv⟩ | ⟨Q, hscan, hrange, hu, hf, hinv, hseen⟩
      · rw [hscan]
        exact .taken hp hun hrange hu hinv
      · rw [hscan]
        refine .exhausted ?_ hrange hu hf hinv
        -- every port of the range is met by one of the `capacity` first tries
        intro q hq
        have htries := hP.range.capacity_le_scanTries
        have hpos := P.capacity_pos
        have hcur : P.cursor < P.capacity := by
          rw [cursor]
          have h1 := hP.next_inRange.1
          have h2 := hP.next_inRange.2
          omega
        obtain ⟨hlo, hhi⟩ := hq
        refine hseen ((q.toNat - P.snatBegin.toNat + P.capacity - P.cursor) % P.capacity)
          (Nat.lt_of_lt_of_le (Nat.mod_lt _ hpos) htries) q ?_
        rw [Nat.add_mod_mod]
        have hsum : P.cursor + (q.toNat - P.snatBegin.toNat + P.capacity - P.cursor) =
            q.toNat - P.snatBegin.toNat + P.capacity := by omega
        rw [hsum, Nat.add_mod_right, Nat.mod_eq_of_lt (by omega)]
        omega

/-! ## Allocation from any range -/

/-- What an allocation does to a pool of any range. The port that it takes may be `0`, which the caller
reads as a failure. -/
inductive AllocAny (P : SnatPool) : UInt16 × SnatPool → Prop
  | failed {Q : SnatPool} (huse : Q.portInUse = P.portInUse) (hfree : Q.freePorts = P.freePorts) :
      AllocAny P (0, Q)
  | taken {p : UInt16} {Q : SnatPool} (hunused : P.portInUse p = false)
      (huse : Q.portInUse = Function.update P.portInUse p true) (hfree : Q.FreeOk) : AllocAny P (p, Q)

theorem scanSnatPort_any (n : Nat) : ∀ {P : SnatPool}, P.freePorts = [] →
    AllocAny P (scanSnatPort n P) := by
  induction n with
  | zero => exact fun _ => .failed rfl rfl
  | succ n ih =>
      intro P hfree
      unfold scanSnatPort
      dsimp only
      split_ifs with huse
      · -- advancing the cursor touches neither the bitmap nor the stack
        have hrest := ih (P := P.advance) hfree
        generalize scanSnatPort n P.advance = r at hrest
        cases hrest with
        | failed huse' hfree' => exact .failed huse' hfree'
        | taken hunused huse' hfree' => exact .taken hunused huse' hfree'
      · have hnil : (P.advance.markInUse P.snatNext).freePorts = [] := hfree
        refine .taken (Bool.eq_false_iff.mpr huse) rfl ⟨?_, ?_⟩
        · rw [hnil]
          exact List.nodup_nil
        · rw [hnil]
          exact nofun

theorem allocSnatPort_any {P : SnatPool} (h : P.FreeOk) : AllocAny P P.allocSnatPort := by
  rw [allocSnatPort]
  cases hlast : P.freePorts.getLast? with
  | some p =>
      obtain ⟨hpop, hnot⟩ := h.pop hlast
      exact .taken (h.unused p (List.mem_of_getLast? hlast)) rfl (hpop.markInUse hnot)
  | none => exact scanSnatPort_any P.scanTries (List.getLast?_eq_none_iff.mp hlast)

/-! ## Freeing -/

/-- Freeing a port in use clears its bit and puts it on the free list; the early returns are for ports
that no session owns. -/
theorem freeSnatPort_of_inUse {P : SnatPool} {p : UInt16} (hne : p ≠ 0) (hp : P.portInUse p = true) :
    P.freeSnatPort p = { P with
      portInUse := Function.update P.portInUse p false, freePorts := P.freePorts ++ [p] } := by
  have hlt : ¬ p.toNat ≥ portInUseSize := by
    have := p.toNat_lt
    simp only [portInUseSize]
    omega
  simp [freeSnatPort, hne, hlt, hp]

theorem freeSnatPort_of_not_inUse {P : SnatPool} {p : UInt16} (hp : P.portInUse p = false) :
    P.freeSnatPort p = P := by
  rw [freeSnatPort, hp]
  simp

/-- Freeing keeps the free list in order, whatever the port. -/
theorem FreeOk.freeSnatPort {P : SnatPool} (h : P.FreeOk) (p : UInt16) :
    (P.freeSnatPort p).FreeOk := by
  by_cases hfree : p = 0 ∨ P.portInUse p = false
  · have hsame : P.freeSnatPort p = P := by
      rcases hfree with rfl | hp
      · simp [SnatPool.freeSnatPort]
      · exact freeSnatPort_of_not_inUse hp
    rw [hsame]
    exact h
  · obtain ⟨hne, hp⟩ := not_or.mp hfree
    have hnot : p ∉ P.freePorts := fun hmem => hp (h.unused p hmem)
    rw [freeSnatPort_of_inUse hne (Bool.not_eq_false _ ▸ hp)]
    refine ⟨?_, ?_⟩
    · refine List.nodup_append.mpr ⟨h.nodup, List.nodup_singleton p, ?_⟩
      rintro a ha b hb rfl
      rw [List.mem_singleton] at hb
      subst hb
      exact hnot ha
    · intro q hq
      rcases List.mem_append.mp hq with hold | hq
      · have hqp : q ≠ p := fun heq => hnot (heq ▸ hold)
        simp only [Function.update_of_ne hqp]
        exact h.unused q hold
      · rw [List.mem_singleton] at hq
        subst hq
        exact Function.update_self ..

/-- Freeing a port in use; the range is kept. -/
theorem freeSnatPort_spec {P : SnatPool} {p : UInt16} (hP : P.Inv) (hp : P.portInUse p = true) :
    (P.freeSnatPort p).portInUse = Function.update P.portInUse p false ∧
      (P.freeSnatPort p).freePorts = P.freePorts ++ [p] ∧
      SameRange (P.freeSnatPort p) P ∧ (P.freeSnatPort p).Inv := by
  have hin := hP.inUse_inRange p hp
  have hfreeOk := hP.freeOk.freeSnatPort p
  rw [freeSnatPort_of_inUse (hin.ne_zero hP.range) hp] at hfreeOk ⊢
  refine ⟨rfl, rfl, ⟨rfl, rfl⟩, ?_⟩
  constructor
  · exact ⟨hP.range.begin_pos, hP.range.shape⟩
  · exact hP.next_inRange
  · intro q hq
    by_cases hqp : q = p
    · subst hqp
      exact hin
    · simp only [Function.update_of_ne hqp] at hq
      exact hP.inUse_inRange q hq
  · exact hfreeOk.nodup
  · intro q hq
    rcases List.mem_append.mp hq with hq | hq
    · exact hP.free_inRange q hq
    · rw [List.mem_singleton] at hq
      subst hq
      exact hin
  · exact hfreeOk.unused

/-- Freeing keeps the invariant, whether or not the port is in use. -/
theorem freeSnatPort_inv {P : SnatPool} (hP : P.Inv) (p : UInt16) : (P.freeSnatPort p).Inv := by
  cases huse : P.portInUse p with
  | true => exact (freeSnatPort_spec hP huse).2.2.2
  | false =>
      rw [freeSnatPort_of_not_inUse huse]
      exact hP

/-! ## Failed allocations -/

/-- Advancing changes the cursor only, and moves it round the range. -/
theorem iterate_advance {P : SnatPool} (hr : P.RangeOk) (hn : P.InRange P.snatNext) (n : Nat) :
    ∃ q : UInt16, advance^[n] P = { P with snatNext := q } ∧
      q.toNat = P.snatBegin.toNat + (P.cursor + n) % P.capacity := by
  induction n with
  | zero =>
      have hlo := hn.1
      have hhi := hn.2
      refine ⟨P.snatNext, rfl, ?_⟩
      rw [cursor, Nat.add_zero, Nat.mod_eq_of_lt (by omega)]
      omega
  | succ n ih =>
      obtain ⟨q, hiter, hq⟩ := ih
      -- the pool after `n` steps has the range of `P` and its cursor in it
      have hsame : SameRange ({ P with snatNext := q } : SnatPool) P := ⟨rfl, rfl⟩
      have hin : P.InRange q := by
        have hlt := Nat.mod_lt (P.cursor + n) P.capacity_pos
        exact ⟨by omega, by omega⟩
      have hnext := advance_next (hsame.rangeOk hr) ((hsame.inRange q).mpr hin)
      have hcursor : ({ P with snatNext := q } : SnatPool).cursor = (P.cursor + n) % P.capacity := by
        show q.toNat - P.snatBegin.toNat = _
        omega
      rw [hcursor, hsame.capacity] at hnext
      rw [Function.iterate_succ_apply', hiter]
      refine ⟨_, rfl, hnext.trans ?_⟩
      show P.snatBegin.toNat + ((P.cursor + n) % P.capacity + 1) % P.capacity = _
      rw [Nat.mod_add_mod, Nat.add_assoc]

/-- A scan that finds nothing has advanced the cursor once per try. -/
theorem scanSnatPort_eq_zero (n : Nat) : ∀ {P : SnatPool}, P.Inv → (scanSnatPort n P).1 = 0 →
    scanSnatPort n P = (0, advance^[n] P) := by
  induction n with
  | zero => exact fun _ _ => rfl
  | succ n ih =>
      intro P hP hzero
      unfold scanSnatPort at hzero ⊢
      dsimp only at hzero ⊢
      split_ifs at hzero ⊢
      · exact ih (advance_inv hP) hzero
      · exact absurd hzero (hP.next_inRange.ne_zero hP.range)

/-- The scan makes a whole number of rounds. -/
theorem RangeOk.scanTries_mod {P : SnatPool} (h : P.RangeOk) : P.scanTries % P.capacity = 0 := by
  have he := P.snatEnd.toNat_lt
  obtain ⟨-, hend | ⟨-, -, hcap⟩⟩ := h.fits
  · have htries : P.scanTries = P.capacity := by
      rw [scanTries, hend]
      omega
    rw [htries, Nat.mod_self]
  · rw [hcap, Nat.mod_one]

/-- An allocation that fails leaves the pool as it was: the cursor has gone all the way round. -/
theorem allocSnatPort_eq_zero {P : SnatPool} (hP : P.Inv) (hzero : P.allocSnatPort.1 = 0) :
    P.allocSnatPort = (0, P) := by
  rw [allocSnatPort] at hzero ⊢
  cases hlast : P.freePorts.getLast? with
  | some p =>
      rw [hlast] at hzero
      exact absurd hzero ((hP.free_inRange p (List.mem_of_getLast? hlast)).ne_zero hP.range)
  | none =>
      rw [hlast] at hzero
      obtain ⟨q, hiter, hq⟩ := iterate_advance hP.range hP.next_inRange P.scanTries
      have hcur : P.snatBegin.toNat + P.cursor = P.snatNext.toNat := by
        have hlo := hP.next_inRange.1
        rw [cursor]
        omega
      have hlt : P.cursor < P.capacity := by
        have hhi := hP.next_inRange.2
        omega
      rw [← Nat.add_mod_mod, hP.range.scanTries_mod, Nat.add_zero, Nat.mod_eq_of_lt hlt,
        hcur] at hq
      obtain rfl := UInt16.toNat.inj hq
      show scanSnatPort P.scanTries P = (0, P)
      rw [scanSnatPort_eq_zero P.scanTries hP hzero, hiter]

end SnatPool

end VioletGateway
