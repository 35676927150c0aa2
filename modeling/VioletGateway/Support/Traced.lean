import Mathlib.Tactic

/-!
# Computations over a memory that log their accesses

`Traced σ τ α` is a computation over a memory of type `σ` that returns a value and records every
access it makes, as a list of `τ`. Value, memory and log of a composite computation are read off
its parts by the simp lemmas `bind_val`, `bind_mem` and `bind_log`.

`Safe ok x s` says that every access of `x`, started on `s`, satisfies `ok`. It composes along `bind`
(`safe_bind`) and along a case split on the program text (`safe_ite`).
-/

set_option autoImplicit false

namespace VioletGateway.Support

/-- What a traced computation produces: a value, the memory afterwards and the accesses made. -/
structure Res (σ τ α : Type) where
  val : α
  mem : σ
  log : List τ

/-- A computation over the memory `σ` that logs accesses of type `τ`. -/
structure Traced (σ τ α : Type) where
  run : σ → Res σ τ α

namespace Traced

variable {σ τ α β : Type}

instance : Monad (Traced σ τ) where
  pure a := ⟨fun s => ⟨a, s, []⟩⟩
  bind x f := ⟨fun s =>
    let r := x.run s
    let r' := (f r.val).run r.mem
    ⟨r'.val, r'.mem, r.log ++ r'.log⟩⟩

-- The parentheses keep these lemmas from being used up to definitional unfolding, which would leave
-- the decidability instances of rewritten conditions behind.
@[simp] theorem pure_val (a : α) (s : σ) : ((pure a : Traced σ τ α).run s).val = a := (rfl)

@[simp] theorem pure_mem (a : α) (s : σ) : ((pure a : Traced σ τ α).run s).mem = s := (rfl)

@[simp] theorem pure_log (a : α) (s : σ) : ((pure a : Traced σ τ α).run s).log = [] := (rfl)

@[simp] theorem bind_val (x : Traced σ τ α) (f : α → Traced σ τ β) (s : σ) :
    ((x >>= f).run s).val = ((f (x.run s).val).run (x.run s).mem).val := (rfl)

@[simp] theorem bind_mem (x : Traced σ τ α) (f : α → Traced σ τ β) (s : σ) :
    ((x >>= f).run s).mem = ((f (x.run s).val).run (x.run s).mem).mem := (rfl)

@[simp] theorem bind_log (x : Traced σ τ α) (f : α → Traced σ τ β) (s : σ) :
    ((x >>= f).run s).log = (x.run s).log ++ ((f (x.run s).val).run (x.run s).mem).log := (rfl)

@[simp] theorem ite_val {c : Prop} [Decidable c] (x y : Traced σ τ α) (s : σ) :
    ((if c then x else y).run s).val = if c then (x.run s).val else (y.run s).val := by
  split <;> rfl

@[simp] theorem ite_mem {c : Prop} [Decidable c] (x y : Traced σ τ α) (s : σ) :
    ((if c then x else y).run s).mem = if c then (x.run s).mem else (y.run s).mem := by
  split <;> rfl

/-- Every access of `x` on the memory `s` satisfies `ok`. -/
def Safe (ok : τ → Prop) (x : Traced σ τ α) (s : σ) : Prop := ∀ a ∈ (x.run s).log, ok a

variable {ok : τ → Prop}

theorem safe_pure (a : α) (s : σ) : Safe ok (pure a : Traced σ τ α) s := by
  intro b hb
  simp at hb

theorem safe_bind_iff {x : Traced σ τ α} {f : α → Traced σ τ β} {s : σ} :
    Safe ok (x >>= f) s ↔ Safe ok x s ∧ Safe ok (f (x.run s).val) (x.run s).mem := by
  simp only [Safe]
  rw [bind_log, List.forall_mem_append]

theorem safe_bind {x : Traced σ τ α} {f : α → Traced σ τ β} {s : σ} (hx : Safe ok x s)
    (hf : Safe ok (f (x.run s).val) (x.run s).mem) : Safe ok (x >>= f) s :=
  safe_bind_iff.mpr ⟨hx, hf⟩

/-- Composition with the value and the memory of the first part named. -/
theorem safe_bind_eq {x : Traced σ τ α} {f : α → Traced σ τ β} {s s' : σ} {a : α}
    (hx : Safe ok x s) (ha : (x.run s).val = a) (hs : (x.run s).mem = s')
    (hf : Safe ok (f a) s') : Safe ok (x >>= f) s := by
  subst ha hs
  exact safe_bind hx hf

theorem safe_map {g : α → β} {x : Traced σ τ α} {s : σ} (hx : Safe ok x s) :
    Safe ok (g <$> x) s :=
  safe_bind hx (safe_pure _ _)

theorem safe_ite {c : Prop} [Decidable c] {x y : Traced σ τ α} {s : σ}
    (hx : c → Safe ok x s) (hy : ¬c → Safe ok y s) : Safe ok (if c then x else y) s := by
  split
  · exact hx ‹_›
  · exact hy ‹_›

end Traced

end VioletGateway.Support
