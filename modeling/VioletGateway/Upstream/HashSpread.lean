import VioletGateway.Upstream.RoundRobin
import VioletGateway.Support.Mixing

/-!
# The spread of the hash

Under the policy `mod` the hash of the client's address and port selects the endpoint. For a given port
the hash is a permutation of the addresses and for a given address it separates the ports, so that over
all addresses the endpoints are selected equally often, up to one.
-/

set_option autoImplicit false

namespace VioletGateway

open Support

namespace UpstreamTable

/-- `hash_key` from its second xor on. -/
def hashFinish (h : UInt32) : UInt32 :=
  let h := h ^^^ (h >>> 16)
  let h := h * 0x85ebca6b
  h ^^^ (h >>> 13)

theorem hashKey_eq (key : FlowKey) :
    hashKey key = hashFinish (key.srcIp ^^^ (key.srcPort.toUInt32 * 0x9e3779b9)) := rfl

theorem xorShiftRight_injective {k : UInt32} (hk : 0 < (k.toBitVec % 32).toNat) :
    Function.Injective fun h : UInt32 => h ^^^ (h >>> k) := by
  intro h h' heq
  have hbits : h.toBitVec ^^^ (h.toBitVec >>> (k.toBitVec % 32).toNat) =
      h'.toBitVec ^^^ (h'.toBitVec >>> (k.toBitVec % 32).toNat) := congrArg UInt32.toBitVec heq
  exact UInt32.toBitVec_inj.mp (xorShift_injective hk hbits)

theorem mul_injective {a : UInt32} (ha : a.toNat % 2 = 1) :
    Function.Injective fun h : UInt32 => h * a := by
  intro h h' heq
  have hbits : h.toBitVec * a.toBitVec = h'.toBitVec * a.toBitVec := congrArg UInt32.toBitVec heq
  exact UInt32.toBitVec_inj.mp (mul_odd_injective ha hbits)

theorem hashFinish_injective : Function.Injective hashFinish := by
  intro h h' heq
  have hmul := xorShiftRight_injective (by decide) heq
  have hshift := mul_injective (by decide) hmul
  exact xorShiftRight_injective (by decide) hshift

theorem finite_uint32 : Finite UInt32 :=
  Finite.of_injective UInt32.toFin fun _ _ => UInt32.toFin_inj.mp

/-- For a given port the hash is a permutation of the addresses. -/
theorem hashKey_bijective (key : FlowKey) :
    Function.Bijective fun ip => hashKey { key with srcIp := ip } := by
  have hfinite : Finite UInt32 := finite_uint32
  apply Finite.injective_iff_bijective.mp
  intro ip ip' heq
  simp only [hashKey_eq] at heq
  exact (UInt32.xor_left_inj _).mp (hashFinish_injective heq)

/-- For a given address the hash separates the ports. -/
theorem hashKey_port_injective (key : FlowKey) :
    Function.Injective fun port => hashKey { key with srcPort := port } := by
  intro port port' heq
  simp only [hashKey_eq] at heq
  have hmul := (UInt32.xor_right_inj _).mp (hashFinish_injective heq)
  exact UInt16.toUInt32_inj.mp (mul_injective (by decide) hmul)

/-! ## All client addresses -/

/-- Over all client addresses with a given port, every position is selected by as many as every other,
up to one. -/
theorem ncard_index {t : UpstreamTable} (hmod : t.policy = .mod) (key : FlowKey) {p : Nat}
    (hp : p < t.nodes.length) :
    {ip | t.index { key with srcIp := ip } = p}.ncard = 2 ^ 32 / t.nodes.length ∨
      {ip | t.index { key with srcIp := ip } = p}.ncard = 2 ^ 32 ⌈/⌉ t.nodes.length := by
  have hindex : ∀ ip, t.index { key with srcIp := ip } =
      (hashKey { key with srcIp := ip }).toNat % t.nodes.length := by
    intro ip
    rw [index, hmod]
  have hbij := hashKey_bijective key
  simp only [hindex]
  apply ncard_residue (f := fun ip => (hashKey { key with srcIp := ip }).toNat) ?_ ?_ hp
  · intro ip ip' heq
    exact hbij.injective (UInt32.toNat_inj.mp heq)
  · intro m
    constructor
    · rintro ⟨ip, rfl⟩
      exact UInt32.toNat_lt _
    · intro hm
      obtain ⟨ip, hip⟩ := hbij.surjective (UInt32.ofNat m)
      refine ⟨ip, ?_⟩
      show (hashKey { key with srcIp := ip }).toNat = m
      rw [show hashKey { key with srcIp := ip } = UInt32.ofNat m from hip]
      exact UInt32.toNat_ofNat_of_lt' hm

/-- The hash of `mod` is a permutation of the client addresses for every port and separates the ports of
every address. So for every list of endpoints and every port, each position is selected by `pick` for
the number of all addresses divided by the number of endpoints, rounded down or rounded up. -/
theorem hashKey_spreads :
    (∀ key : FlowKey, Function.Bijective fun ip => hashKey { key with srcIp := ip }) ∧
    (∀ key : FlowKey, Function.Injective fun port => hashKey { key with srcPort := port }) ∧
    ∀ t : UpstreamTable, t.policy = .mod → 1 ≤ t.nodes.length → t.nodes.length ≤ 2 ^ 32 →
      (∀ key, (t.pick key).1 = t.nodes[t.index key]?) ∧
      ∀ (key : FlowKey) (p : Nat), p < t.nodes.length →
        {ip | t.index { key with srcIp := ip } = p}.ncard = 2 ^ 32 / t.nodes.length ∨
        {ip | t.index { key with srcIp := ip } = p}.ncard = 2 ^ 32 ⌈/⌉ t.nodes.length := by
  refine ⟨hashKey_bijective, hashKey_port_injective, ?_⟩
  intro t hmod hpos _
  refine ⟨fun key => pick_eq_index (List.length_pos_iff.mp hpos) key, ?_⟩
  intro key p hp
  exact ncard_index hmod key hp

/-- Three endpoints, of which the last one is selected for 1431655765 or 1431655766 addresses. -/
theorem hashKey_spreads_three :
    {ip | (⟨.mod, [⟨1, 53⟩, ⟨2, 53⟩, ⟨3, 53⟩], 0⟩ : UpstreamTable).index
      { srcIp := ip, srcPort := 4000 } = 2}.ncard = 1431655765 ∨
    {ip | (⟨.mod, [⟨1, 53⟩, ⟨2, 53⟩, ⟨3, 53⟩], 0⟩ : UpstreamTable).index
      { srcIp := ip, srcPort := 4000 } = 2}.ncard = 1431655766 :=
  (hashKey_spreads.2.2 ⟨.mod, [⟨1, 53⟩, ⟨2, 53⟩, ⟨3, 53⟩], 0⟩ rfl (by decide) (by decide)).2
    { srcPort := 4000 } 2 (by decide)

end UpstreamTable

end VioletGateway
