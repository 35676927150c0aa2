import Mathlib.Data.Int.CardIntervalMod
import Mathlib.Data.Set.Card
import Mathlib.Algebra.Order.Floor.Div
import Mathlib.Tactic

/-!
# Mixing words

The steps of which a multiplicative hash is made, on words of any width: xor with a constant, xor with
the word itself shifted right, and multiplication by an odd constant. None of them loses anything, so
that their composition is a permutation of the words. A permutation that is followed by a remainder
reaches every residue equally often, up to one (`ncard_residue`).
-/

set_option autoImplicit false

namespace VioletGateway.Support

/-! ## Steps that lose nothing -/

section Words

variable {w : Nat}

/-- A word that a shift leaves as it is has no bits. -/
theorem eq_zero_of_shift_eq {z : BitVec w} {k : Nat} (hk : 0 < k) (h : z = z >>> k) : z = 0#w := by
  apply BitVec.eq_of_toNat_eq
  have hnat := congrArg BitVec.toNat h
  rw [BitVec.toNat_ushiftRight, Nat.shiftRight_eq_div_pow] at hnat
  by_contra hne
  have hpos : 0 < z.toNat := Nat.pos_of_ne_zero hne
  have hlt : z.toNat / 2 ^ k < z.toNat := Nat.div_lt_self hpos (Nat.one_lt_two_pow hk.ne')
  omega

theorem xor_swap {a b c d : BitVec w} (h : a ^^^ b = c ^^^ d) : a ^^^ c = b ^^^ d := by
  have hb : a = c ^^^ d ^^^ b := by
    rw [← h, BitVec.xor_assoc, BitVec.xor_self, BitVec.xor_zero]
  rw [hb, BitVec.xor_comm c d, BitVec.xor_assoc, BitVec.xor_assoc, BitVec.xor_comm c, BitVec.xor_assoc,
    BitVec.xor_self, BitVec.xor_zero, BitVec.xor_comm]

theorem xorShift_injective {k : Nat} (hk : 0 < k) :
    Function.Injective fun x : BitVec w => x ^^^ (x >>> k) := by
  intro x y hxy
  have hshift : x ^^^ y = (x ^^^ y) >>> k := by
    rw [BitVec.ushiftRight_xor_distrib]
    exact xor_swap hxy
  exact BitVec.xor_eq_zero_iff.mp (eq_zero_of_shift_eq hk hshift)

/-- An odd factor can be cancelled modulo a power of two. -/
theorem mul_odd_injective {a : BitVec w} (ha : a.toNat % 2 = 1) :
    Function.Injective fun x : BitVec w => x * a := by
  intro x y hxy
  apply BitVec.eq_of_toNat_eq
  have hmul : x.toNat * a.toNat ≡ y.toNat * a.toNat [MOD 2 ^ w] := by
    have hnat := congrArg BitVec.toNat hxy
    rwa [BitVec.toNat_mul, BitVec.toNat_mul] at hnat
  have hcoprime : (2 ^ w).gcd a.toNat = 1 := by
    apply Nat.Coprime.pow_left
    exact Nat.coprime_two_left.mpr (Nat.odd_iff.mpr ha)
  have hcancel := Nat.ModEq.cancel_right_of_coprime hcoprime hmul
  exact hcancel.eq_of_lt_of_lt x.isLt y.isLt

end Words

/-! ## Remainders of a permutation -/

section Residues

variable {α : Type} {N : Nat} {f : α → Nat}

/-- How many numbers below `N` leave the remainder `p`. -/
theorem card_residue {n p : Nat} (hp : p < n) :
    ((Finset.range N).filter fun m => m % n = p).card = N / n + if p < N % n then 1 else 0 := by
  have hcount := Nat.count_modEq_card N (Nat.zero_lt_of_lt hp) p
  rw [Nat.count_eq_card_filter_range, Nat.mod_eq_of_lt hp] at hcount
  rw [← hcount]
  congr 1
  apply Finset.filter_congr
  intro m _
  rw [Nat.ModEq, Nat.mod_eq_of_lt hp]

/-- A quotient that does not come out is rounded up to the next number. -/
theorem ceilDiv_of_mod_pos {n : Nat} (hn : 0 < n) (hmod : 0 < N % n) : N ⌈/⌉ n = N / n + 1 := by
  have hdiv := Nat.div_add_mod N n
  have hlt := Nat.mod_lt N hn
  have hsum : N + n - 1 = N % n - 1 + n * (N / n + 1) := by
    rw [Nat.mul_succ]
    omega
  rw [Nat.ceilDiv_eq_add_pred_div, hsum, Nat.add_mul_div_left _ _ hn, Nat.div_eq_of_lt (by omega),
    Nat.zero_add]

/-- If `f` takes each value below `N` once, a remainder is reached by the quotient of `N`, rounded down
or rounded up. -/
theorem ncard_residue (hinj : Function.Injective f) (hrange : ∀ m, m ∈ Set.range f ↔ m < N) {n p : Nat}
    (hp : p < n) :
    {a | f a % n = p}.ncard = N / n ∨ {a | f a % n = p}.ncard = N ⌈/⌉ n := by
  have himage : f '' {a | f a % n = p} = ((Finset.range N).filter fun m => m % n = p : Finset Nat) := by
    ext m
    rw [Finset.mem_coe, Finset.mem_filter, Finset.mem_range, ← hrange]
    constructor
    · rintro ⟨a, ha, rfl⟩
      exact ⟨⟨a, rfl⟩, ha⟩
    · rintro ⟨⟨a, rfl⟩, ha⟩
      exact ⟨a, ha, rfl⟩
  rw [← Set.ncard_image_of_injective _ hinj, himage, Set.ncard_coe_finset, card_residue hp]
  by_cases hlt : p < N % n
  · right
    rw [if_pos hlt]
    exact (ceilDiv_of_mod_pos (Nat.zero_lt_of_lt hp) (Nat.zero_lt_of_lt hlt)).symm
  · left
    rw [if_neg hlt, Nat.add_zero]

end Residues

end VioletGateway.Support
