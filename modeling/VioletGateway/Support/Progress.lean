import Mathlib.Tactic

/-!
# Progress along infinite runs

A schedule is an infinite sequence of events, and `trajectory` the states that it goes through. A kind
of events `Recurs` if there is one of that kind after every point in time. `eventually_of_rank` is the
rule by which fairness becomes progress: in every state short of the goal it is some kind's turn, an
event of that kind lowers the rank, and no other event raises the rank or takes the turn away.
-/

set_option autoImplicit false

namespace VioletGateway.Support

universe u v w

variable {σ : Type u} {ε : Type v} (step : σ → ε → σ)

/-- The states of an infinite run. -/
def trajectory (s : σ) (schedule : Nat → ε) : Nat → σ
  | 0 => s
  | n + 1 => step (trajectory s schedule n) (schedule n)

/-- After every point in time there is an event that `act` accepts, in the state in which it occurs. -/
def Recurs (act : σ → ε → Prop) (s : σ) (schedule : Nat → ε) : Prop :=
  ∀ n, ∃ m, n ≤ m ∧ act (trajectory step s schedule m) (schedule m)

variable {step} {s : σ} {schedule : Nat → ε}

/-- What every step preserves, holds from then on. -/
theorem trajectory_invariant {P : σ → Prop} (hstep : ∀ s e, P s → P (step s e)) {n m : Nat}
    (hle : n ≤ m) (h : P (trajectory step s schedule n)) : P (trajectory step s schedule m) := by
  induction m, hle using Nat.le_induction with
  | base => exact h
  | succ m _ ih => exact hstep _ _ ih

section Rank

variable {κ : Type w} {act : κ → σ → ε → Prop} {P Q : σ → Prop} {rank : σ → Nat} {turn : σ → κ}

/-- What an event does in a state short of the goal: it reaches the goal, it lowers the rank, or it
leaves the rank and the turn as they are, which an event of the kind whose turn it is does not. -/
def Advances (act : κ → σ → ε → Prop) (Q : σ → Prop) (rank : σ → Nat) (turn : σ → κ) (s s' : σ)
    (e : ε) : Prop :=
  Q s' ∨ rank s' < rank s ∨ (rank s' = rank s ∧ turn s' = turn s ∧ ¬act (turn s) s e)

/-- Once the kind whose turn it is acts, the goal is reached or the rank is lower. -/
theorem lower_of_turn (hP : ∀ s e, P s → P (step s e))
    (hadv : ∀ s e, P s → ¬Q s → Advances act Q rank turn s (step s e) e) (d : Nat) :
    ∀ n, P (trajectory step s schedule n) →
      act (turn (trajectory step s schedule n)) (trajectory step s schedule (n + d))
        (schedule (n + d)) →
      ∃ m, n ≤ m ∧ (Q (trajectory step s schedule m) ∨
        rank (trajectory step s schedule m) < rank (trajectory step s schedule n)) := by
  -- the induction is on the time until it acts
  induction d with
  | zero =>
      intro n hPn hact
      by_cases hQ : Q (trajectory step s schedule n)
      · exact ⟨n, Nat.le_refl n, .inl hQ⟩
      rcases hadv _ (schedule n) hPn hQ with hgoal | hlower | ⟨-, -, hidle⟩
      · exact ⟨n + 1, Nat.le_succ n, .inl hgoal⟩
      · exact ⟨n + 1, Nat.le_succ n, .inr hlower⟩
      · exact absurd hact hidle
  | succ d ih =>
      intro n hPn hact
      by_cases hQ : Q (trajectory step s schedule n)
      · exact ⟨n, Nat.le_refl n, .inl hQ⟩
      rcases hadv _ (schedule n) hPn hQ with hgoal | hlower | ⟨hrank, hturn, -⟩
      · exact ⟨n + 1, Nat.le_succ n, .inl hgoal⟩
      · exact ⟨n + 1, Nat.le_succ n, .inr hlower⟩
      · have hindex : n + (d + 1) = n + 1 + d := by omega
        rw [hindex, ← hturn] at hact
        obtain ⟨m, hm, hreached⟩ := ih (n + 1) (hP _ _ hPn) hact
        refine ⟨m, Nat.le_of_succ_le hm, ?_⟩
        rw [← hrank]
        exact hreached

variable (act rank turn) in
/-- If every kind of events recurs, and events advance towards the goal, then the goal is reached. -/
theorem eventually_of_rank (hP : ∀ s e, P s → P (step s e))
    (hadv : ∀ s e, P s → ¬Q s → Advances act Q rank turn s (step s e) e)
    (hfair : ∀ k, Recurs step (act k) s schedule) (n : Nat)
    (h : P (trajectory step s schedule n)) : ∃ m, n ≤ m ∧ Q (trajectory step s schedule m) := by
  generalize hr : rank (trajectory step s schedule n) = r
  induction r using Nat.strong_induction_on generalizing n with
  | _ r ih =>
      obtain ⟨m, hm, hact⟩ := hfair (turn (trajectory step s schedule n)) n
      obtain ⟨d, rfl⟩ := Nat.exists_eq_add_of_le hm
      obtain ⟨i, hi, hgoal | hlower⟩ := lower_of_turn hP hadv d n h hact
      · exact ⟨i, hi, hgoal⟩
      · rw [hr] at hlower
        obtain ⟨j, hj, hgoal⟩ := ih _ hlower i (trajectory_invariant hP hi h) rfl
        exact ⟨j, Nat.le_trans hi hj, hgoal⟩

end Rank

end VioletGateway.Support
