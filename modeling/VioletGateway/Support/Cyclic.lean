import Mathlib.Data.List.Rotate
import Mathlib.Tactic

/-!
# Counting round a cycle

`cyclic c n k` are the residues modulo `n` of `k` consecutive numbers from `c` on. Any `n` of them in
a row are all residues, each once (`cyclic_block`), so every residue occurs `k / n` or `k / n + 1`
times (`count_cyclic`).
-/

set_option autoImplicit false

namespace VioletGateway.Support

/-- The residues of `c`, `c + 1`, … modulo `n`, `k` of them. -/
def cyclic (c n k : Nat) : List Nat := (List.range k).map fun i => (c + i) % n

@[simp] theorem length_cyclic (c n k : Nat) : (cyclic c n k).length = k := by
  simp [cyclic]

theorem cyclic_add (c n j k : Nat) : cyclic c n (j + k) = cyclic c n j ++ cyclic (c + j) n k := by
  simp only [cyclic, List.range_add, List.map_append, List.map_map, Function.comp_def, Nat.add_assoc]

theorem cyclic_succ (c n k : Nat) : cyclic c n (k + 1) = c % n :: cyclic (c + 1) n k := by
  rw [Nat.add_comm, cyclic_add]
  rfl

/-- A whole turn does not matter. -/
theorem cyclic_turn (c n k : Nat) : cyclic (c + n) n k = cyclic c n k := by
  apply List.map_congr_left
  intro i _
  rw [Nat.add_right_comm, Nat.add_mod_right]

/-- A whole turn passes every residue once. -/
theorem cyclic_perm_range (c n : Nat) : (cyclic c n n).Perm (List.range n) := by
  have hrotate : cyclic c n n = (List.range n).rotate c := by
    apply List.ext_getElem (by simp)
    intro i h₁ h₂
    rw [List.getElem_rotate]
    simp [cyclic, Nat.add_comm]
  rw [hrotate]
  exact List.rotate_perm _ _

/-- So does any part of the sequence of that length. -/
theorem cyclic_block (c n : Nat) {j k : Nat} (h : j + n ≤ k) :
    (((cyclic c n k).drop j).take n).Perm (List.range n) := by
  have hsplit : k = j + (n + (k - j - n)) := by omega
  have hblock : ((cyclic c n k).drop j).take n = cyclic (c + j) n n := by
    rw [hsplit, cyclic_add, cyclic_add, List.drop_left' (by simp), List.take_left' (by simp)]
  rw [hblock]
  exact cyclic_perm_range _ _

/-- In less than a turn no residue occurs twice. -/
theorem nodup_cyclic (c : Nat) {n k : Nat} (h : k ≤ n) : (cyclic c n k).Nodup := by
  have hsplit : cyclic c n n = cyclic c n k ++ cyclic (c + k) n (n - k) := by
    rw [← cyclic_add, Nat.add_sub_cancel' h]
  have hnodup := (cyclic_perm_range c n).nodup_iff.mpr List.nodup_range
  rw [hsplit] at hnodup
  exact (List.nodup_append.mp hnodup).1

/-- Every residue has its share, and at most one more. -/
theorem count_cyclic (c : Nat) {n p : Nat} (hp : p < n) (k : Nat) :
    (cyclic c n k).count p = k / n ∨ (cyclic c n k).count p = k / n + 1 := by
  induction k using Nat.strong_induction_on with
  | _ k ih =>
      rcases Nat.lt_or_ge k n with hlt | hge
      · have hle := List.nodup_iff_count_le_one.mp (nodup_cyclic c (Nat.le_of_lt hlt)) p
        rw [Nat.div_eq_of_lt hlt]
        omega
      · -- a whole turn first
        have hone : (cyclic c n n).count p = 1 := by
          rw [(cyclic_perm_range c n).count_eq]
          exact List.count_eq_one_of_mem List.nodup_range (List.mem_range.mpr hp)
        have hcount : (cyclic c n k).count p = 1 + (cyclic c n (k - n)).count p := by
          rw [← hone, ← List.count_append, ← cyclic_turn c n (k - n), ← cyclic_add,
            Nat.add_sub_cancel' hge]
        have hdiv : k / n = (k - n) / n + 1 := by
          rw [← Nat.add_div_right _ (by omega), Nat.sub_add_cancel hge]
        have hrest := ih (k - n) (by omega)
        omega

end VioletGateway.Support
