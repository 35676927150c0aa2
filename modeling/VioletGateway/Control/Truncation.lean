import VioletGateway.Control.Format

/-!
# Publishing a long list

The block has room for 64 endpoints, and `write_seed_unlocked` bounds the count accordingly. The length
of the list is narrowed to 16 bits first, however, so that the bound sees only its remainder: from
65536 endpoints on, a list can lose more than what follows its first 64.
-/

set_option autoImplicit false

namespace VioletGateway

open Support

namespace Shm

/-- A publish, and the table after the poll that follows it; none when the poll applies nothing. -/
def publishAndPoll (d : ByteMem) (seed : CpUpdate) (lastApplied : UInt32) (t : UpstreamTable) :
    Option UpstreamTable :=
  ((pollApply lastApplied).runOn (Store.applyAll d ((publish seed).runOn d))).map
    fun found => t.apply found.2

/-- The publish and the poll install the seed's policy and of its endpoints as many as there is room
for, from the first on. -/
def InstallsFirst (d : ByteMem) (seed : CpUpdate) (lastApplied : UInt32) (t : UpstreamTable) : Prop :=
  ∃ t', publishAndPoll d seed lastApplied t = some t' ∧ t'.policy = seed.policy ∧
    t'.nodes = seed.endpoints.take (min seed.endpoints.length maxEp)

/-- A poll that has not applied the new version installs what was written. -/
theorem publishAndPoll_eq {d : ByteMem} (hd : HasMagic d) (seed : CpUpdate) {lastApplied : UInt32}
    (hnew : lastApplied ≠ nextVersion (loadVersion.runOn d)) (t : UpstreamTable) :
    publishAndPoll d seed lastApplied t = some (t.apply (written seed)) := by
  have hroom : (written seed).endpoints.length ≤ maxEp := by
    rw [written_length]
    exact (seedCount_le seed).1
  rw [publishAndPoll, applyAll_publish_seed hd, runOn_pollApply d (nextVersion_ne_zero _) hroom,
    if_neg hnew.symm]
  rfl

/-- The number of endpoints written can be told from the prefix that was written. -/
theorem seedCount_of_take_eq {seed : CpUpdate} {n : Nat} (hn : n ≤ seed.endpoints.length)
    (h : (written seed).endpoints = seed.endpoints.take n) : (seedCount seed).toNat = n := by
  have hlen := congrArg List.length h
  rwa [written_length, List.length_take, Nat.min_eq_left hn] at hlen

/-- Narrowing does no harm to the bound below 65536 and where the remainder fills the block. -/
theorem seedCount_eq_min_iff (seed : CpUpdate) :
    (seedCount seed).toNat = min seed.endpoints.length maxEp ↔
      seed.endpoints.length < 65536 ∨ maxEp ≤ seed.endpoints.length % 65536 := by
  rw [seedCount_toNat, maxEp]
  omega

/-- A publish and the poll that follows it install the first 64 endpoints of the seed, or all of them if
there are fewer, exactly when the seed has fewer than 65536 or the remainder of their number modulo
65536 is at least 64. -/
theorem installsFirst_iff (d : ByteMem) (hd : HasMagic d) (seed : CpUpdate) (lastApplied : UInt32)
    (hnew : lastApplied ≠ nextVersion (loadVersion.runOn d)) (t : UpstreamTable) :
    InstallsFirst d seed lastApplied t ↔
      seed.endpoints.length < 65536 ∨ 64 ≤ seed.endpoints.length % 65536 := by
  rw [InstallsFirst, publishAndPoll_eq hd seed hnew t]
  constructor
  · rintro ⟨t', ht', -, hnodes⟩
    cases ht'
    exact (seedCount_eq_min_iff seed).mp (seedCount_of_take_eq (Nat.min_le_left _ _) hnodes)
  · intro h
    refine ⟨t.apply (written seed), rfl, rfl, ?_⟩
    show seed.endpoints.take (seedCount seed).toNat = _
    rw [(seedCount_eq_min_iff seed).mpr h]

/-- A block of zeros that carries the magic. -/
def blankBlock : ByteMem := Store.applyAll 0 [store32 magicOff magic]

/-- A seed with `n` endpoints. -/
def seedOf (n : Nat) : CpUpdate := ⟨.rr, List.replicate n ⟨0x0100000a, 53⟩⟩

/-- Seventy endpoints are cut to 64. -/
theorem installsFirst_seventy : InstallsFirst blankBlock (seedOf 70) 0 {} :=
  (installsFirst_iff blankBlock (by decide) (seedOf 70) 0 (by decide) {}).mpr (by decide)

/-- Of 65536 endpoints none is installed. -/
theorem not_installsFirst_wrapped :
    HasMagic blankBlock ∧ (0 : UInt32) ≠ nextVersion (loadVersion.runOn blankBlock) ∧
    publishAndPoll blankBlock (seedOf 65536) 0 {} = some { policy := .rr, nodes := [] } ∧
    ¬InstallsFirst blankBlock (seedOf 65536) 0 {} := by
  have hmagic : HasMagic blankBlock := by decide
  have hnew : (0 : UInt32) ≠ nextVersion (loadVersion.runOn blankBlock) := by decide
  have hlen : (seedOf 65536).endpoints.length = 65536 := List.length_replicate
  have hcount : (seedCount (seedOf 65536)).toNat = 0 := by
    rw [seedCount_toNat, hlen]
    rfl
  have hpoll : publishAndPoll blankBlock (seedOf 65536) 0 {} =
      some { policy := .rr, nodes := [] } := by
    rw [publishAndPoll_eq hmagic _ hnew, written, hcount]
    rfl
  refine ⟨hmagic, hnew, hpoll, ?_⟩
  rintro ⟨t', ht', -, hnodes⟩
  rw [hpoll] at ht'
  cases ht'
  have hzero := congrArg List.length hnodes
  rw [List.length_take, hlen] at hzero
  exact absurd hzero (by decide)

end Shm

end VioletGateway
