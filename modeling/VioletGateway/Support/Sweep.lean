import Mathlib.Data.Set.Insert
import Mathlib.Tactic

/-!
# Stores that are swept from time to time

The entries of a store carry a time. New entries carry the present, entries that are used are stamped
anew, and a sweep removes those that are older than a timeout. Sweeps do not run all the time, so a
store holds entries that are overdue; `Swept` is the invariant that says by how much. It speaks of the
set of the times in the store only, and of the time of the last sweep.
-/

set_option autoImplicit false

namespace VioletGateway.Support

variable {timeout interval last now : ℕ} {stamps stamps' : Set ℕ}

/-- No entry was overdue when the last sweep was over: it was young then, or it is from a later time. -/
def Swept (timeout last : ℕ) (stamps : Set ℕ) : Prop :=
  ∀ stamp ∈ stamps, last < stamp + timeout ∨ last ≤ stamp

/-- The entries at some later time are old ones or of that time. -/
theorem Swept.stamp (h : Swept timeout last stamps) (hle : last ≤ now)
    (hsub : stamps' ⊆ insert now stamps) : Swept timeout last stamps' := by
  intro stamp hstamp
  rcases hsub hstamp with rfl | hold
  · exact Or.inr hle
  · exact h stamp hold

/-- What a sweep leaves. -/
theorem swept_of_young (h : ∀ stamp ∈ stamps, now < stamp + timeout) : Swept timeout now stamps :=
  fun stamp hstamp => Or.inl (h stamp hstamp)

/-- An entry is overdue by less than the time since the last sweep. -/
theorem Swept.age (h : Swept timeout last stamps) (hnow : now < last + interval) {stamp : ℕ}
    (hstamp : stamp ∈ stamps) : now < stamp + timeout + interval := by
  rcases h stamp hstamp with hyoung | hlater <;> omega

/-- If nothing was stamped for the timeout and an interval between sweeps, the store is empty. -/
theorem Swept.eq_empty (h : Swept timeout last stamps) (hnow : now < last + interval) {quiet : ℕ}
    (hquiet : ∀ stamp ∈ stamps, stamp ≤ quiet) (hlong : quiet + timeout + interval ≤ now) :
    stamps = ∅ := by
  rw [Set.eq_empty_iff_forall_notMem]
  intro stamp hstamp
  have hage := h.age hnow hstamp
  have hle := hquiet stamp hstamp
  omega

end VioletGateway.Support
