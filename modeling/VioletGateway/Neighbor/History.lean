import VioletGateway.Neighbor.Table
import VioletGateway.Support.Run

/-!
# The neighbor table and its history

A neighbor table is the result of the calls made on it. `lookup_history` reads the answer of `lookup`
off the list of these calls: an address that was ever seeded has the MAC address of its last seed;
any other address has the MAC address of its last learn, as long as no later sweep found it too old.
-/

set_option autoImplicit false

namespace VioletGateway

open Support

namespace NeighborTable

/-- A call on the table. -/
inductive Op
  | seed (ip : UInt32) (mac : EtherAddr)
  | learn (ip : UInt32) (mac : EtherAddr) (nowMs : UInt64)
  | expire (nowMs : UInt64)

/-- The table after a call. -/
def Op.apply (t : NeighborTable) : Op → NeighborTable
  | .seed ip mac => t.seed ip mac
  | .learn ip mac nowMs => t.learn ip mac nowMs
  | .expire nowMs => t.expire nowMs

/-- The time that a call is given. -/
def Op.time : Op → Option UInt64
  | .seed _ _ => none
  | .learn _ _ nowMs => some nowMs
  | .expire nowMs => some nowMs

/-- The MAC address that a call seeds for `ip`. -/
def seedOf (ip : UInt32) : Op → Option EtherAddr
  | .seed ip' mac => if ip' = ip then some mac else none
  | _ => none

/-- The MAC address and the time with which a call learns `ip`. -/
def learnOf (ip : UInt32) : Op → Option (EtherAddr × UInt64)
  | .learn ip' mac nowMs => if ip' = ip then some (mac, nowMs) else none
  | _ => none

/-- The clock does not run backwards. -/
def Chronological (ops : List Op) : Prop := (ops.filterMap Op.time).Pairwise (· ≤ ·)

/-- `mac` is the MAC address of the last seed of `ip`. -/
def Seeded (ip : UInt32) (mac : EtherAddr) (ops : List Op) : Prop :=
  ∃ later, MostRecent (seedOf ip) mac later ops

/-- `ip` was not seeded. -/
def NeverSeeded (ip : UInt32) (ops : List Op) : Prop := ∀ op ∈ ops, seedOf ip op = none

/-- The last learn of `ip` was with `mac` at time `t`, and no sweep since then found it `timeout` or
more milliseconds old. -/
def Remembered (timeout : UInt64) (ip : UInt32) (mac : EtherAddr) (t : UInt64) (ops : List Op) :
    Prop :=
  ∃ later, MostRecent (learnOf ip) (mac, t) later ops ∧
    ∀ t', Op.expire t' ∈ later → t'.toNat - t.toNat < timeout.toNat

/-! ## One more call -/

section Concat

variable {timeout t : UInt64} {ip : UInt32} {mac : EtherAddr} {ops : List Op}

theorem seeded_concat (op : Op) :
    Seeded ip mac (ops ++ [op]) ↔
      seedOf ip op = some mac ∨ (seedOf ip op = none ∧ Seeded ip mac ops) := by
  rw [Seeded]
  simp only [mostRecent_concat]
  constructor
  · rintro ⟨later, ⟨-, hop⟩ | ⟨hop, later', -, hrec⟩⟩
    · exact Or.inl hop
    · exact Or.inr ⟨hop, later', hrec⟩
  · rintro (hop | ⟨hop, later, hrec⟩)
    · exact ⟨[], Or.inl ⟨rfl, hop⟩⟩
    · exact ⟨later ++ [op], Or.inr ⟨hop, later, rfl, hrec⟩⟩

theorem neverSeeded_concat (op : Op) :
    NeverSeeded ip (ops ++ [op]) ↔ NeverSeeded ip ops ∧ seedOf ip op = none := by
  simp only [NeverSeeded]
  simp only [List.forall_mem_append, List.forall_mem_singleton]

theorem remembered_concat (op : Op) :
    Remembered timeout ip mac t (ops ++ [op]) ↔
      learnOf ip op = some (mac, t) ∨
        (learnOf ip op = none ∧ Remembered timeout ip mac t ops ∧
          ∀ t', op = .expire t' → t'.toNat - t.toNat < timeout.toNat) := by
  rw [Remembered]
  simp only [mostRecent_concat]
  constructor
  · rintro ⟨later, ⟨-, hop⟩ | ⟨hop, later', rfl, hrec⟩, hage⟩
    · exact Or.inl hop
    · refine Or.inr ⟨hop, ⟨later', hrec, ?_⟩, ?_⟩
      · exact fun t' ht' => hage t' (List.mem_append_left _ ht')
      · rintro t' rfl
        exact hage t' (List.mem_append_right _ (List.mem_singleton_self _))
  · rintro (hop | ⟨hop, ⟨later, hrec, hage⟩, hlast⟩)
    · exact ⟨[], Or.inl ⟨rfl, hop⟩, by simp⟩
    · refine ⟨later ++ [op], Or.inr ⟨hop, later, rfl, hrec⟩, ?_⟩
      intro t' ht'
      rcases List.mem_append.mp ht' with hold | hnew
      · exact hage t' hold
      · exact hlast t' (List.mem_singleton.mp hnew).symm

end Concat

/-- An address was seeded or it was not. -/
theorem exists_seeded_of_not_neverSeeded {ip : UInt32} {ops : List Op}
    (h : ¬NeverSeeded ip ops) : ∃ mac, Seeded ip mac ops := by
  induction ops using List.reverseRecOn with
  | nil => exact absurd (fun _ hop => absurd hop List.not_mem_nil) h
  | append_singleton ops op ih =>
      rw [neverSeeded_concat] at h
      cases hop : seedOf ip op with
      | some mac => exact ⟨mac, (seeded_concat op).mpr (Or.inl hop)⟩
      | none =>
          obtain ⟨mac, hmac⟩ := ih fun hnever => h ⟨hnever, hop⟩
          exact ⟨mac, (seeded_concat op).mpr (Or.inr ⟨hop, hmac⟩)⟩

theorem Seeded.not_neverSeeded {ip : UInt32} {mac : EtherAddr} {ops : List Op}
    (h : Seeded ip mac ops) : ¬NeverSeeded ip ops := by
  obtain ⟨later, hrec⟩ := h
  obtain ⟨op, hmem, hop⟩ := hrec.mem
  intro hnever
  rw [hnever op hmem] at hop
  cases hop

/-- What is remembered was learned before the last call. -/
theorem Remembered.le {timeout t t' : UInt64} {ip : UInt32} {mac : EtherAddr} {ops : List Op}
    (h : Remembered timeout ip mac t ops) (hchron : Chronological (ops ++ [.expire t'])) :
    t ≤ t' := by
  obtain ⟨later, hrec, -⟩ := h
  obtain ⟨op, hmem, hop⟩ := hrec.mem
  have htime : op.time = some t := by
    cases op with
    | learn ip' mac' now =>
        simp only [learnOf, Option.ite_none_right_eq_some, Option.some.injEq, Prod.mk.injEq] at hop
        simp only [Op.time, hop.2.2]
    | seed ip' mac' => cases hop
    | expire now => cases hop
  rw [Chronological, List.filterMap_append, List.pairwise_append] at hchron
  exact hchron.2.2 t (List.mem_filterMap.mpr ⟨op, hmem, htime⟩) t' (by simp [Op.time])

/-! ## The entries -/

theorem entries_seed (N : NeighborTable) (ip ip' : UInt32) (mac : EtherAddr) :
    (N.seed ip' mac).entries.lookup ip =
      if ip = ip' then some { ip := ip', mac := mac, isStatic := true } else N.entries.lookup ip := by
  rw [seed]
  split_ifs with hip
  · rw [hip]
    exact AList.lookup_insert _
  · exact AList.lookup_insert_ne hip

theorem entries_learn (N : NeighborTable) (ip ip' : UInt32) (mac : EtherAddr) (now : UInt64) :
    (N.learn ip' mac now).entries.lookup ip =
      if ip = ip' ∧ N.hasStatic ip' = false then
        some { ip := ip', mac := mac, lastSeenMs := now, isStatic := false }
      else N.entries.lookup ip := by
  rw [learn]
  by_cases hstatic : N.hasStatic ip' = true
  · rw [if_pos hstatic, if_neg (by simp [hstatic])]
  · rw [if_neg hstatic]
    by_cases hip : ip = ip'
    · rw [if_pos ⟨hip, Bool.eq_false_iff.mpr hstatic⟩, hip]
      exact AList.lookup_insert _
    · rw [if_neg fun h => hip h.1]
      exact AList.lookup_insert_ne hip

theorem entries_expire (N : NeighborTable) (ip : UInt32) (now : UInt64) :
    (N.expire now).entries.lookup ip = (N.entries.lookup ip).bind (N.expireEntry now) :=
  lookup_mapMaybe _ _ _

theorem hasStatic_iff (N : NeighborTable) (ip : UInt32) :
    N.hasStatic ip = true ↔ ∃ e, N.entries.lookup ip = some e ∧ e.isStatic = true := by
  rw [hasStatic]
  cases N.entries.lookup ip with
  | none => simp
  | some e => simp

/-- No call changes the time after which entries expire. -/
theorem apply_entryTimeoutMs (N : NeighborTable) (op : Op) :
    (op.apply N).entryTimeoutMs = N.entryTimeoutMs := by
  cases op with
  | learn ip mac now =>
      simp only [Op.apply, learn]
      split_ifs <;> rfl
  | seed ip mac => rfl
  | expire now => rfl

/-- The entry of `ip` as its history says it. -/
def HistoryEntry (timeout : UInt64) (ip : UInt32) (ops : List Op) (e : NeighborEntry) : Prop :=
  (∃ mac, Seeded ip mac ops ∧ e = { ip := ip, mac := mac, isStatic := true }) ∨
    (NeverSeeded ip ops ∧ ∃ mac t, Remembered timeout ip mac t ops ∧
      e = { ip := ip, mac := mac, lastSeenMs := t, isStatic := false })

section HistoryEntry

variable {timeout : UInt64} {ip : UInt32} {ops : List Op} {e : NeighborEntry}

/-- A call that is about another address does not change the entry. -/
theorem historyEntry_other {op : Op} (hseed : seedOf ip op = none) (hlearn : learnOf ip op = none)
    (hexpire : ∀ t, op ≠ .expire t) :
    HistoryEntry timeout ip (ops ++ [op]) e ↔ HistoryEntry timeout ip ops e := by
  simp only [HistoryEntry]
  simp only [seeded_concat, neverSeeded_concat, remembered_concat, hseed, hlearn, reduceCtorEq,
    false_or, true_and, and_true]
  have hforall : ∀ t : UInt64,
      (∀ t', op = .expire t' → t'.toNat - t.toNat < timeout.toNat) ↔ True := by
    intro t
    exact ⟨fun _ => trivial, fun _ t' h => absurd h (hexpire t')⟩
  simp only [hforall, and_true]

theorem historyEntry_seed (mac : EtherAddr) :
    HistoryEntry timeout ip (ops ++ [.seed ip mac]) e ↔
      e = { ip := ip, mac := mac, isStatic := true } := by
  rw [HistoryEntry]
  simp [seeded_concat, neverSeeded_concat, seedOf]

theorem historyEntry_learn (mac : EtherAddr) (now : UInt64) :
    HistoryEntry timeout ip (ops ++ [.learn ip mac now]) e ↔
      (∃ mac', Seeded ip mac' ops ∧ e = { ip := ip, mac := mac', isStatic := true }) ∨
        (NeverSeeded ip ops ∧
          e = { ip := ip, mac := mac, lastSeenMs := now, isStatic := false }) := by
  rw [HistoryEntry]
  simp [seeded_concat, neverSeeded_concat, remembered_concat, seedOf, learnOf]

theorem historyEntry_expire (now : UInt64) :
    HistoryEntry timeout ip (ops ++ [.expire now]) e ↔
      (∃ mac, Seeded ip mac ops ∧ e = { ip := ip, mac := mac, isStatic := true }) ∨
        (NeverSeeded ip ops ∧ ∃ mac t, (Remembered timeout ip mac t ops ∧
          now.toNat - t.toNat < timeout.toNat) ∧
          e = { ip := ip, mac := mac, lastSeenMs := t, isStatic := false }) := by
  rw [HistoryEntry]
  simp [seeded_concat, neverSeeded_concat, remembered_concat, seedOf, learnOf]

end HistoryEntry

/-- The table that a list of calls leaves. -/
def after (timeout : UInt64) (ops : List Op) : NeighborTable := run Op.apply (.new timeout) ops

theorem after_concat (timeout : UInt64) (ops : List Op) (op : Op) :
    after timeout (ops ++ [op]) = op.apply (after timeout ops) := run_concat _ ops op

theorem after_entryTimeoutMs (timeout : UInt64) (ops : List Op) :
    (after timeout ops).entryTimeoutMs = timeout :=
  run_invariant (P := fun N : NeighborTable => N.entryTimeoutMs = timeout)
    (fun N op h => (apply_entryTimeoutMs N op).trans h) rfl ops

theorem Chronological.left {ops ops' : List Op} (h : Chronological (ops ++ ops')) :
    Chronological ops := by
  rw [Chronological] at h ⊢
  rw [List.filterMap_append, List.pairwise_append] at h
  exact h.1

/-- The sweep keeps exactly the static entries and those that are young enough. -/
theorem expireEntry_eq_some {N : NeighborTable} {now : UInt64} {e e' : NeighborEntry}
    (hle : e.isStatic = false → e.lastSeenMs ≤ now) :
    N.expireEntry now e = some e' ↔ e' = e ∧
      (e.isStatic = true ∨ now.toNat - e.lastSeenMs.toNat < N.entryTimeoutMs.toNat) := by
  rw [expireEntry]
  cases hstatic : e.isStatic with
  | true => simp [eq_comm]
  | false =>
      -- the subtraction does not wrap
      have helapsed := UInt64.toNat_sub_of_le now e.lastSeenMs (hle hstatic)
      simp only [Bool.false_eq_true, if_false, false_or, ge_iff_le, UInt64.le_iff_toNat_le,
        helapsed]
      split_ifs with hold
      · simp only [false_iff, not_and, Nat.not_lt]
        exact fun _ => hold
      · simp only [Option.some.injEq, Nat.not_le.mp hold, and_true, eq_comm]

/-! ## One call and the entries -/

section Apply

variable {timeout : UInt64} {ops : List Op} {ip : UInt32} {N : NeighborTable}
  (hN : ∀ e, N.entries.lookup ip = some e ↔ HistoryEntry timeout ip ops e)
include hN

theorem hasStatic_iff_seeded : N.hasStatic ip = true ↔ ¬NeverSeeded ip ops := by
  rw [hasStatic_iff]
  constructor
  · rintro ⟨e, he, htrue⟩
    rcases (hN e).mp he with ⟨mac, hseed, -⟩ | ⟨-, mac, t, -, rfl⟩
    · exact hseed.not_neverSeeded
    · cases htrue
  · intro hnever
    obtain ⟨mac, hseed⟩ := exists_seeded_of_not_neverSeeded hnever
    exact ⟨_, (hN _).mpr (Or.inl ⟨mac, hseed, rfl⟩), rfl⟩

theorem entries_apply_seed (ip' : UInt32) (mac : EtherAddr) (e : NeighborEntry) :
    (N.seed ip' mac).entries.lookup ip = some e ↔
      HistoryEntry timeout ip (ops ++ [.seed ip' mac]) e := by
  rw [entries_seed]
  split_ifs with hip
  · subst hip
    rw [historyEntry_seed, Option.some.injEq, eq_comm]
  · rw [historyEntry_other (by simp [seedOf, Ne.symm hip]) rfl (by simp), hN]

theorem entries_apply_learn (ip' : UInt32) (mac : EtherAddr) (now : UInt64) (e : NeighborEntry) :
    (N.learn ip' mac now).entries.lookup ip = some e ↔
      HistoryEntry timeout ip (ops ++ [.learn ip' mac now]) e := by
  rw [entries_learn]
  by_cases hip : ip = ip'
  swap
  · rw [if_neg fun h => hip h.1, hN,
      historyEntry_other rfl (by simp [learnOf, Ne.symm hip]) (by simp)]
  subst hip
  rw [historyEntry_learn]
  have hstatic := hasStatic_iff_seeded hN
  by_cases hnever : NeverSeeded ip ops
  · -- no static entry stands in the way
    have hfree : N.hasStatic ip = false := Bool.eq_false_iff.mpr fun htrue => hstatic.mp htrue hnever
    rw [if_pos ⟨rfl, hfree⟩, Option.some.injEq, eq_comm]
    constructor
    · exact fun h => Or.inr ⟨hnever, h⟩
    · rintro (⟨mac', hseed, -⟩ | ⟨-, h⟩)
      · exact absurd hnever hseed.not_neverSeeded
      · exact h
  · -- learning is refused, and the seeded entry stays
    rw [if_neg (by simp [hstatic.mpr hnever]), hN, HistoryEntry]
    simp only [hnever, false_and]

theorem entries_apply_expire (htimeout : N.entryTimeoutMs = timeout) {now : UInt64}
    (hchron : Chronological (ops ++ [.expire now])) (e : NeighborEntry) :
    (N.expire now).entries.lookup ip = some e ↔
      HistoryEntry timeout ip (ops ++ [.expire now]) e := by
  rw [entries_expire, historyEntry_expire, Option.bind_eq_some_iff]
  simp only [hN]
  constructor
  · rintro ⟨e', ⟨mac, hseed, rfl⟩ | ⟨hnever, mac, t, hrem, rfl⟩, he⟩
    · obtain ⟨rfl, -⟩ := (expireEntry_eq_some (by simp)).mp he
      exact Or.inl ⟨mac, hseed, rfl⟩
    · obtain ⟨rfl, hyoung⟩ := (expireEntry_eq_some fun _ => hrem.le hchron).mp he
      rw [htimeout] at hyoung
      exact Or.inr ⟨hnever, mac, t, ⟨hrem, by simpa using hyoung⟩, rfl⟩
  · rintro (⟨mac, hseed, rfl⟩ | ⟨hnever, mac, t, ⟨hrem, hyoung⟩, rfl⟩)
    · exact ⟨_, Or.inl ⟨mac, hseed, rfl⟩, (expireEntry_eq_some (by simp)).mpr ⟨rfl, by simp⟩⟩
    · refine ⟨_, Or.inr ⟨hnever, mac, t, hrem, rfl⟩,
        (expireEntry_eq_some fun _ => hrem.le hchron).mpr ⟨rfl, Or.inr ?_⟩⟩
      rw [htimeout]
      exact hyoung

end Apply

/-- The entries of the table are those of the history. -/
theorem entries_after {timeout : UInt64} {ops : List Op} (hchron : Chronological ops)
    (ip : UInt32) (e : NeighborEntry) :
    (after timeout ops).entries.lookup ip = some e ↔ HistoryEntry timeout ip ops e := by
  induction ops using List.reverseRecOn generalizing e with
  | nil =>
      constructor
      · intro h
        cases h
      · rintro (⟨mac, ⟨later, hrec⟩, -⟩ | ⟨-, mac, t, ⟨later, hrec, -⟩, -⟩)
        · obtain ⟨op, hmem, -⟩ := hrec.mem
          cases hmem
        · obtain ⟨op, hmem, -⟩ := hrec.mem
          cases hmem
  | append_singleton ops op ih =>
      have ih := ih hchron.left
      rw [after_concat]
      cases op with
      | seed ip' mac => exact entries_apply_seed ih ip' mac e
      | learn ip' mac now => exact entries_apply_learn ih ip' mac now e
      | expire now => exact entries_apply_expire ih (after_entryTimeoutMs timeout ops) hchron e

/-- The answer of `lookup`, from the history of the table. -/
theorem lookup_history {timeout : UInt64} {ops : List Op} (hchron : Chronological ops)
    (ip : UInt32) (mac : EtherAddr) :
    (after timeout ops).lookup ip = some mac ↔
      Seeded ip mac ops ∨ (NeverSeeded ip ops ∧ ∃ t, Remembered timeout ip mac t ops) := by
  rw [lookup, Option.map_eq_some_iff]
  simp only [entries_after hchron]
  constructor
  · rintro ⟨e, ⟨mac', hseed, rfl⟩ | ⟨hnever, mac', t, hrem, rfl⟩, rfl⟩
    · exact Or.inl hseed
    · exact Or.inr ⟨hnever, t, hrem⟩
  · rintro (hseed | ⟨hnever, t, hrem⟩)
    · exact ⟨_, Or.inl ⟨mac, hseed, rfl⟩, rfl⟩
    · exact ⟨_, Or.inr ⟨hnever, mac, t, hrem, rfl⟩, rfl⟩

end NeighborTable

end VioletGateway
