import Mathlib.Tactic

/-!
# One's-complement sums of 16-bit words

`onesAdd` adds two 16-bit words with end-around carry, and `onesSum` adds up a list of them. A sum is
determined by the ordinary sum of the words: it is congruent to it modulo `65535`, and it is zero
only if all words are (`onesSum_eq_zero`), so it is `65535` exactly if the ordinary sum is a positive
multiple of `65535` (`onesSum_eq_max_iff`). Hence a word that is the complement of the sum of the
others completes the sum to `65535` (`onesSum_complement`).

`wordsBe` and `wordsLe` read a byte string as words; the two orders agree on which sums are `65535`.
-/

set_option autoImplicit false

namespace VioletGateway.Support

/-- Addition with end-around carry. -/
def onesAdd (a b : Nat) : Nat := if a + b < 65536 then a + b else a + b - 65535

/-- One's-complement sum of a list of words. -/
def onesSum (ws : List Nat) : Nat := ws.foldr onesAdd 0

/-- The words of a byte string, high byte first; a last odd byte is a high byte. -/
def wordsBe : List UInt8 → List Nat
  | a :: b :: rest => (256 * a.toNat + b.toNat) :: wordsBe rest
  | [a] => [256 * a.toNat]
  | [] => []

/-- The words of a byte string, low byte first; a last odd byte is a low byte. -/
def wordsLe : List UInt8 → List Nat
  | a :: b :: rest => (a.toNat + 256 * b.toNat) :: wordsLe rest
  | [a] => [a.toNat]
  | [] => []

/-! ## Sums -/

theorem onesSum_cons (w : Nat) (ws : List Nat) : onesSum (w :: ws) = onesAdd w (onesSum ws) := rfl

theorem onesSum_lt {ws : List Nat} (h : ∀ w ∈ ws, w < 65536) : onesSum ws < 65536 := by
  induction ws with
  | nil => decide
  | cons w ws ih =>
      have hw := h w List.mem_cons_self
      have hws := ih fun v hv => h v (List.mem_cons_of_mem w hv)
      rw [onesSum_cons]
      rw [onesAdd]
      split_ifs <;> omega

theorem onesSum_mod (ws : List Nat) : onesSum ws % 65535 = ws.sum % 65535 := by
  induction ws with
  | nil => rfl
  | cons w ws ih =>
      rw [onesSum_cons, List.sum_cons]
      rw [onesAdd]
      split_ifs <;> omega

theorem onesSum_eq_zero (ws : List Nat) : onesSum ws = 0 ↔ ws.sum = 0 := by
  induction ws with
  | nil => exact Iff.rfl
  | cons w ws ih =>
      rw [onesSum_cons, List.sum_cons]
      rw [onesAdd]
      split_ifs <;> omega

theorem onesSum_eq_max_iff {ws : List Nat} (h : ∀ w ∈ ws, w < 65536) :
    onesSum ws = 65535 ↔ ws.sum % 65535 = 0 ∧ ws.sum ≠ 0 := by
  have hlt := onesSum_lt h
  have hmod := onesSum_mod ws
  have hzero := onesSum_eq_zero ws
  constructor
  · intro hmax
    rw [hmax] at hmod hzero
    exact ⟨by omega, fun hsum => absurd (hzero.mpr hsum) (by decide)⟩
  · rintro ⟨hdvd, hpos⟩
    have hne : onesSum ws ≠ 0 := fun hz => hpos (hzero.mp hz)
    omega

/-- Putting the complement of the sum in the place of a zero word completes the sum. -/
theorem onesSum_complement {pre post : List Nat} (hpre : ∀ w ∈ pre, w < 65536)
    (hpost : ∀ w ∈ post, w < 65536) {w : Nat} (hw : w = 65535 - onesSum (pre ++ 0 :: post)) :
    onesSum (pre ++ w :: post) = 65535 := by
  have hzero : ∀ v ∈ pre ++ 0 :: post, v < 65536 := by
    intro v hv
    rcases List.mem_append.mp hv with hv | hv
    · exact hpre v hv
    · rcases List.mem_cons.mp hv with rfl | hv
      · decide
      · exact hpost v hv
  have hall : ∀ v ∈ pre ++ w :: post, v < 65536 := by
    intro v hv
    rcases List.mem_append.mp hv with hv | hv
    · exact hpre v hv
    · rcases List.mem_cons.mp hv with rfl | hv
      · omega
      · exact hpost v hv
  have hlt := onesSum_lt hzero
  have hmod := onesSum_mod (pre ++ 0 :: post)
  have hiff := onesSum_eq_zero (pre ++ 0 :: post)
  rw [onesSum_eq_max_iff hall]
  simp only [List.sum_append, List.sum_cons, Nat.zero_add] at hmod hiff ⊢
  omega

/-- The sum is `65535` when the word completes the sum of the others, and also when both are `65535`,
the other representation of zero. -/
theorem onesSum_eq_max_iff_complement (pre post : List Nat) (hpre : ∀ w ∈ pre, w < 65536)
    (hpost : ∀ w ∈ post, w < 65536) {w : Nat} (hw : w < 65536) :
    onesSum (pre ++ w :: post) = 65535 ↔
      w = 65535 - onesSum (pre ++ 0 :: post) ∨ (w = 65535 ∧ onesSum (pre ++ 0 :: post) = 65535) := by
  have hall : ∀ {v : Nat}, v < 65536 → ∀ u ∈ pre ++ v :: post, u < 65536 := by
    intro v hv u hu
    rcases List.mem_append.mp hu with hu | hu
    · exact hpre u hu
    · rcases List.mem_cons.mp hu with rfl | hu
      · exact hv
      · exact hpost u hu
  have hlt := onesSum_lt (hall (v := 0) (by decide))
  have hmod := onesSum_mod (pre ++ 0 :: post)
  have hiff := onesSum_eq_zero (pre ++ 0 :: post)
  rw [onesSum_eq_max_iff (hall hw)]
  simp only [List.sum_append, List.sum_cons, Nat.zero_add] at hmod hiff ⊢
  omega

theorem onesSum_append {xs ys : List Nat} (hxs : ∀ w ∈ xs, w < 65536) (hys : ∀ w ∈ ys, w < 65536) :
    onesSum (xs ++ ys) = onesAdd (onesSum xs) (onesSum ys) := by
  have hall : ∀ w ∈ xs ++ ys, w < 65536 := fun w hw => (List.mem_append.mp hw).elim (hxs w) (hys w)
  have hlt := onesSum_lt hall
  have hmod := onesSum_mod (xs ++ ys)
  have hzero := onesSum_eq_zero (xs ++ ys)
  have hlt₁ := onesSum_lt hxs
  have hmod₁ := onesSum_mod xs
  have hzero₁ := onesSum_eq_zero xs
  have hlt₂ := onesSum_lt hys
  have hmod₂ := onesSum_mod ys
  have hzero₂ := onesSum_eq_zero ys
  rw [List.sum_append] at hmod hzero
  rw [onesAdd]
  split_ifs <;> omega

/-! ## Words of a byte string -/

theorem wordsLe_append {xs : List UInt8} (h : xs.length % 2 = 0) (ys : List UInt8) :
    wordsLe (xs ++ ys) = wordsLe xs ++ wordsLe ys := by
  induction xs using wordsLe.induct with
  | case1 a b rest ih =>
      simp only [List.length_cons] at h
      simp only [List.cons_append, wordsLe]
      rw [ih (by omega)]
  | case2 a => simp at h
  | case3 => rfl

theorem wordsLe_lt {bs : List UInt8} : ∀ w ∈ wordsLe bs, w < 65536 := by
  induction bs using wordsLe.induct with
  | case1 a b rest ih =>
      have ha := a.toNat_lt
      have hb := b.toNat_lt
      simp only [wordsLe, List.forall_mem_cons]
      exact ⟨by omega, ih⟩
  | case2 a =>
      have ha := a.toNat_lt
      simp only [wordsLe, List.forall_mem_singleton]
      omega
  | case3 => simp [wordsLe]

theorem wordsBe_lt {bs : List UInt8} : ∀ w ∈ wordsBe bs, w < 65536 := by
  induction bs using wordsBe.induct with
  | case1 a b rest ih =>
      have ha := a.toNat_lt
      have hb := b.toNat_lt
      simp only [wordsBe, List.forall_mem_cons]
      exact ⟨by omega, ih⟩
  | case2 a =>
      have ha := a.toNat_lt
      simp only [wordsBe, List.forall_mem_singleton]
      omega
  | case3 => simp [wordsBe]

/-- Exchanging the bytes of all words multiplies the sum by `256` modulo `65535`. -/
theorem sum_wordsBe_mod (bs : List UInt8) :
    (wordsBe bs).sum % 65535 = 256 * (wordsLe bs).sum % 65535 := by
  induction bs using wordsBe.induct with
  | case1 a b rest ih =>
      simp only [wordsBe, wordsLe, List.sum_cons]
      omega
  | case2 a => simp [wordsBe, wordsLe]
  | case3 => rfl

theorem sum_wordsBe_eq_zero (bs : List UInt8) :
    (wordsBe bs).sum = 0 ↔ (wordsLe bs).sum = 0 := by
  induction bs using wordsBe.induct with
  | case1 a b rest ih =>
      simp only [wordsBe, wordsLe, List.sum_cons]
      omega
  | case2 a =>
      simp only [wordsBe, wordsLe, List.sum_cons, List.sum_nil]
      omega
  | case3 => exact Iff.rfl

/-- The byte order does not matter for a sum of `65535`. -/
theorem onesSum_wordsBe_eq_max_iff (bs : List UInt8) :
    onesSum (wordsBe bs) = 65535 ↔ onesSum (wordsLe bs) = 65535 := by
  have hmod := sum_wordsBe_mod bs
  rw [onesSum_eq_max_iff wordsBe_lt, onesSum_eq_max_iff wordsLe_lt, ne_eq, ne_eq,
    sum_wordsBe_eq_zero]
  -- `256` is invertible modulo `65535`
  omega

/-- Exchanging the bytes of all words exchanges the bytes of the sum. -/
theorem onesSum_wordsBe (bs : List UInt8) :
    onesSum (wordsBe bs) =
      onesSum (wordsLe bs) % 256 * 256 + onesSum (wordsLe bs) / 256 := by
  have hmod := sum_wordsBe_mod bs
  have hzero := sum_wordsBe_eq_zero bs
  have hlt₁ : onesSum (wordsBe bs) < 65536 := onesSum_lt wordsBe_lt
  have hmod₁ := onesSum_mod (wordsBe bs)
  have hzero₁ := onesSum_eq_zero (wordsBe bs)
  have hlt₂ : onesSum (wordsLe bs) < 65536 := onesSum_lt wordsLe_lt
  have hmod₂ := onesSum_mod (wordsLe bs)
  have hzero₂ := onesSum_eq_zero (wordsLe bs)
  omega

/-- The words of bytes that stand at offset `n` of a byte string. -/
def wordsAt (n : Nat) (bs : List UInt8) : List Nat := wordsBe (if n % 2 = 0 then bs else 0 :: bs)

theorem sum_wordsBe_append (xs ys : List UInt8) :
    (wordsBe (xs ++ ys)).sum = (wordsBe xs).sum + (wordsAt xs.length ys).sum := by
  induction xs using wordsBe.induct with
  | case1 a b rest ih =>
      have hparity : wordsAt (a :: b :: rest).length ys = wordsAt rest.length ys := by
        simp only [wordsAt]
        simp only [List.length_cons, Nat.add_assoc, Nat.reduceAdd, Nat.add_mod_right]
      rw [hparity]
      simp only [List.cons_append, wordsBe, List.sum_cons]
      omega
  | case2 a =>
      -- the odd byte is the high byte of the next word
      cases ys with
      | nil => simp [wordsAt, wordsBe]
      | cons b ys =>
          simp only [wordsAt, List.length_singleton, wordsBe, List.singleton_append, List.sum_cons,
            List.sum_nil, Nat.one_mod, if_neg (by decide : ¬(1 = 0)), UInt8.toNat_zero]
          omega
  | case3 => simp [wordsAt, wordsBe]

end VioletGateway.Support
