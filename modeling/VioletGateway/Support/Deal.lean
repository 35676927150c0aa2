import Mathlib.Data.List.Basic

/-!
# Dealing a list out

A list is dealt to two when each element goes to the one or to the other, in order: the list is an
interleaving of the two. Which of them an element goes to may be told from its position.
-/

set_option autoImplicit false

namespace VioletGateway.Support

universe u

variable {α : Type u} {x : α} {xs ls rs : List α}

/-- `Interleaves ls rs xs`: the elements of `xs` are those of `ls` and those of `rs`, each once and each
in its order. -/
inductive Interleaves : List α → List α → List α → Prop
  | nil : Interleaves [] [] []
  | left {x : α} {xs ls rs : List α} (h : Interleaves ls rs xs) : Interleaves (x :: ls) rs (x :: xs)
  | right {x : α} {xs ls rs : List α} (h : Interleaves ls rs xs) : Interleaves ls (x :: rs) (x :: xs)

/-- `DealtBy p i xs ls rs`: of the list `xs`, which starts at the position `i`, the elements at the
positions of `p` are `ls` and the others are `rs`. -/
inductive DealtBy (p : Nat → Prop) : Nat → List α → List α → List α → Prop
  | nil {i : Nat} : DealtBy p i [] [] []
  | left {i : Nat} {x : α} {xs ls rs : List α} (hi : p i) (h : DealtBy p (i + 1) xs ls rs) :
      DealtBy p i (x :: xs) (x :: ls) rs
  | right {i : Nat} {x : α} {xs ls rs : List α} (hi : ¬p i) (h : DealtBy p (i + 1) xs ls rs) :
      DealtBy p i (x :: xs) ls (x :: rs)

namespace DealtBy

variable {p : Nat → Prop} {i : Nat}

theorem interleaves (h : DealtBy p i xs ls rs) : Interleaves ls rs xs := by
  induction h with
  | nil => exact .nil
  | left hi h ih => exact .left ih
  | right hi h ih => exact .right ih

/-- From a position on that `p` leaves alone, everything goes to the right. -/
theorem all_right (xs : List α) (h : ∀ j, i ≤ j → ¬p j) : DealtBy p i xs [] xs := by
  induction xs generalizing i with
  | nil => exact .nil
  | cons x xs ih =>
      refine .right (h i (Nat.le_refl i)) (ih fun j hj => ?_)
      exact h j (Nat.le_trans (Nat.le_succ i) hj)

/-- If `p` has every position, nothing goes to the right. -/
theorem eq_nil_of_forall (h : DealtBy p i xs ls rs) (hall : ∀ j, i ≤ j → j < i + xs.length → p j) :
    rs = [] := by
  induction h with
  | nil => rfl
  | @left i x xs ls rs hi h ih =>
      refine ih fun j hj hlt => hall j (Nat.le_of_succ_le hj) ?_
      rw [List.length_cons]
      omega
  | @right i x xs ls rs hi h ih =>
      exact absurd (hall i (Nat.le_refl i) (by rw [List.length_cons]; omega)) hi

end DealtBy

end VioletGateway.Support
