import Mathlib.Logic.Function.Basic
import VioletGateway.Support.Run

/-!
# Network address and port translation

What a translator is for, over arbitrary types of flows, backends and ports. It lends each flow a port
towards one backend: what the flow sends leaves from that port to that backend (`out`), what that
backend returns to the port goes back to the flow (`back`), and at some point the port is given up
(`lapse`). `Napt.Step` are the moves that are allowed.

The state of a translator is determined by the labels of its moves: a port is held by the flow that
used it last, unless it has lapsed since (`holder_iff`). An implementation inherits this along a
simulation (`run_path`).
-/

set_option autoImplicit false

namespace VioletGateway.Support

universe u v

/-! ## Labelled paths -/

section Path

variable {α : Type u} {ℓ : Type v} {Step : α → ℓ → α → Prop} {a b c : α} {l : ℓ} {ls ls' : List ℓ}

/-- The system takes a list of labelled steps. -/
inductive Path (Step : α → ℓ → α → Prop) : α → List ℓ → α → Prop
  | nil (a : α) : Path Step a [] a
  | cons {a b c : α} {l : ℓ} {ls : List ℓ} (hstep : Step a l b) (hpath : Path Step b ls c) :
      Path Step a (l :: ls) c

theorem Path.single (h : Step a l b) : Path Step a [l] b := .cons h (.nil b)

theorem Path.of_single (h : Path Step a [l] b) : Step a l b := by
  cases h with
  | cons hstep hrest =>
      cases hrest
      exact hstep

theorem Path.append (h : Path Step a ls b) (h' : Path Step b ls' c) : Path Step a (ls ++ ls') c := by
  induction h with
  | nil => exact h'
  | cons hstep _ ih => exact .cons hstep (ih h')

/-- Induction along a path, with the labels so far. -/
theorem Path.invariant {P : List ℓ → α → Prop} (hstep : ∀ {ls a l b}, Step a l b → P ls a →
    P (ls ++ [l]) b) {past : List ℓ} (h : Path Step a ls b) (ha : P past a) : P (past ++ ls) b := by
  induction h generalizing past with
  | nil => rwa [List.append_nil]
  | cons hone _ ih =>
      rw [← List.singleton_append, ← List.append_assoc]
      exact ih (hstep hone ha)

variable {σ : Type*} {ε : Type*} {step : σ → ε → σ} {labels : σ → ε → List ℓ} {abs : σ → α}
  {P : σ → Prop}

/-- If every step of an implementation is a path of the system, so is every run. -/
theorem run_path (hP : ∀ s e, P s → P (step s e))
    (hsim : ∀ s e, P s → Path Step (abs s) (labels s e) (abs (step s e))) {s : σ} (h : P s)
    (es : List ε) : Path Step (abs s) (outputs step labels s es) (abs (run step s es)) := by
  induction es generalizing s with
  | nil => exact .nil _
  | cons e es ih => exact (hsim s e h).append (ih (hP s e h))

end Path

/-! ## The translator -/

/-- Which flow holds a port, and towards which backend. -/
abbrev Napt (Flow : Type*) (Backend : Type*) (Port : Type*) := Port → Option (Flow × Backend)

namespace Napt

variable {Flow Backend Port : Type*}

/-- What a translator does, as it is seen from outside. -/
inductive Label (Flow Backend Port : Type*)
  | out (f : Flow) (b : Backend) (p : Port)
  | back (b : Backend) (p : Port) (f : Flow)
  | lapse (p : Port)
deriving DecidableEq

variable [DecidableEq Port]

/-- The moves of a translator. -/
inductive Step : Napt Flow Backend Port → Label Flow Backend Port → Napt Flow Backend Port → Prop
  /-- a flow that holds a port goes on using it -/
  | keep {n : Napt Flow Backend Port} {f : Flow} {b : Backend} {p : Port} (h : n p = some (f, b)) :
      Step n (.out f b p) n
  /-- a flow that holds no port takes one that nobody holds -/
  | take {n : Napt Flow Backend Port} {f : Flow} (b : Backend) {p : Port} (hport : n p = none)
      (hflow : ∀ q b', n q ≠ some (f, b')) :
      Step n (.out f b p) (Function.update n p (some (f, b)))
  /-- what the backend returns goes to the holder of the port -/
  | back {n : Napt Flow Backend Port} {f : Flow} {b : Backend} {p : Port} (h : n p = some (f, b)) :
      Step n (.back b p f) n
  | lapse (n : Napt Flow Backend Port) (p : Port) : Step n (.lapse p) (Function.update n p none)

/-- A flow that sends through a port holds it, or nobody did. -/
theorem Step.holder_of_out {n n' : Napt Flow Backend Port} {f : Flow} {b : Backend} {p : Port}
    (h : Step n (.out f b p) n') : n p = some (f, b) ∨ n p = none := by
  cases h with
  | keep hheld => exact Or.inl hheld
  | take _ hport _ => exact Or.inr hport

/-- Ports that lapse one after the other. -/
theorem path_lapses (ps : List Port) (n : Napt Flow Backend Port) :
    Path Step n (ps.map .lapse) fun p => if p ∈ ps then none else n p := by
  induction ps generalizing n with
  | nil => exact .nil n
  | cons q ps ih =>
      have hrest := Path.cons (.lapse n q) (ih (Function.update n q none))
      refine Eq.subst (motive := Path Step n ((q :: ps).map .lapse)) (funext fun p => ?_) hrest
      rw [Function.update_apply]
      by_cases hp : p = q <;> simp [hp]

/-- The holder of `p` that a label leaves, if it says anything about it. -/
def use (p : Port) : Label Flow Backend Port → Option (Option (Flow × Backend))
  | .out f b q => if q = p then some (some (f, b)) else none
  | .back _ _ _ => none
  | .lapse q => if q = p then some none else none

/-- A move that says nothing about a port does not change its holder, and one that does says who it
is. -/
theorem Step.holder {n n' : Napt Flow Backend Port} {l : Label Flow Backend Port} (h : Step n l n')
    (p : Port) : n' p = (use p l).getD (n p) := by
  cases h with
  | @keep f b q hq =>
      rw [use]
      split_ifs with hp
      · rw [← hp, hq]
        rfl
      · rfl
  | @take f b q _ _ =>
      rw [use, Function.update_apply]
      split_ifs with h₁ h₂ h₂
      · rfl
      · exact absurd h₁.symm h₂
      · exact absurd h₂.symm h₁
      · rfl
  | back => rfl
  | lapse q =>
      rw [use, Function.update_apply]
      split_ifs with h₁ h₂ h₂
      · rfl
      · exact absurd h₁.symm h₂
      · exact absurd h₂.symm h₁
      · rfl

/-- A port is held by the flow that used it last, unless it has lapsed since. -/
theorem holder_iff {ls : List (Label Flow Backend Port)} {n : Napt Flow Backend Port}
    (h : Path Step (fun _ => none) ls n) (p : Port) (f : Flow) (b : Backend) :
    n p = some (f, b) ↔ ∃ later, MostRecent (use p) (some (f, b)) later ls := by
  have hstart : (none : Option (Flow × Backend)) = some (f, b) ↔
      ∃ later, MostRecent (use p) (some (f, b)) later ([] : List (Label Flow Backend Port)) := by
    simp [MostRecent]
  refine Path.invariant (P := fun ls n => n p = some (f, b) ↔
    ∃ later, MostRecent (use p) (some (f, b)) later ls) ?_ h hstart
  intro ls n l n' hstep ih
  rw [hstep.holder p]
  simp only [mostRecent_concat]
  cases huse : use p l with
  | none =>
      -- the label is about another port
      simp only [Option.getD_none, ih, reduceCtorEq, and_false, true_and, false_or]
      constructor
      · rintro ⟨later, hrecent⟩
        exact ⟨later ++ [l], later, rfl, hrecent⟩
      · rintro ⟨-, later, -, hrecent⟩
        exact ⟨later, hrecent⟩
  | some o => simp

end Napt

end VioletGateway.Support
