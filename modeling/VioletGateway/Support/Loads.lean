import VioletGateway.Support.ByteMem

/-!
# Programs over a shared memory

`Loads α` is a program that loads blocks of a byte memory, one after the other, and returns a value.
`runOn` runs it on a memory that nobody changes meanwhile; where other parties store in between, a
system takes the loads of a program one by one, as `Steps` does on a memory at rest. `Within` says
that a program loads nothing behind a given offset, whatever it finds.

`Store` is one store to the memory, and `applyAll` the effect of several.
-/

set_option autoImplicit false

namespace VioletGateway.Support

/-! ## Loads -/

/-- A program that loads blocks of a memory and returns a value. -/
inductive Loads (α : Type)
  | done (a : α)
  | load (off n : Nat) (k : (Fin n → UInt8) → Loads α)

namespace Loads

variable {α β : Type}

/-- One program after the other. -/
def bind : Loads α → (α → Loads β) → Loads β
  | done a, f => f a
  | load off n k, f => load off n fun bs => (k bs).bind f

instance : Monad Loads where
  pure := done
  bind := bind

/-- The value that a program returns on the memory `d`. -/
def runOn (d : ByteMem) : Loads α → α
  | done a => a
  | load off n k => (k (d.load off n)).runOn d

/-- The blocks that a program loads on the memory `d`, as pairs of offset and length. -/
def accesses (d : ByteMem) : Loads α → List (Nat × Nat)
  | done _ => []
  | load off n k => (off, n) :: (k (d.load off n)).accesses d

/-- Whatever it finds, the program loads nothing beyond the first `size` bytes. -/
def Within (size : Nat) : Loads α → Prop
  | done _ => True
  | load off n k => off + n ≤ size ∧ ∀ bs, (k bs).Within size

variable {size : Nat} {p : Loads α} {d : ByteMem}

@[simp] theorem runOn_pure (a : α) : (pure a : Loads α).runOn d = a := rfl

@[simp] theorem runOn_bind (f : α → Loads β) :
    (p >>= f).runOn d = (f (p.runOn d)).runOn d := by
  induction p with
  | done a => rfl
  | load off n k ih => exact ih _

@[simp] theorem runOn_ite {c : Prop} [Decidable c] {q : Loads α} :
    (if c then p else q).runOn d = if c then p.runOn d else q.runOn d := by
  split <;> rfl

/-- On the memory `d` the program becomes `p'` after `n` loads. -/
inductive Steps (d : ByteMem) : Nat → Loads α → Loads α → Prop
  | refl (p : Loads α) : Steps d 0 p p
  | load {m off n : Nat} {k : (Fin n → UInt8) → Loads α} {p' : Loads α}
      (h : Steps d m (k (d.load off n)) p') : Steps d (m + 1) (load off n k) p'

theorem Steps.trans {n n' : Nat} {p' p'' : Loads α} (h : Steps d n p p') (h' : Steps d n' p' p'') :
    Steps d (n + n') p p'' := by
  induction h with
  | refl p => rwa [Nat.zero_add]
  | @load m off n k p' h ih =>
      rw [Nat.add_right_comm]
      exact .load (ih h')

theorem Steps.runOn_eq {n : Nat} {p' : Loads α} (h : Steps d n p p') : p.runOn d = p'.runOn d := by
  induction h with
  | refl p => rfl
  | load h ih => exact ih

/-- The loads of the first of two programs. -/
theorem steps_bind (p : Loads α) (f : α → Loads β) :
    Steps d (p.accesses d).length (p >>= f) (f (p.runOn d)) := by
  induction p with
  | done a => exact .refl (f a)
  | load off n k ih => exact .load (ih _)

/-- All the loads of a program. -/
theorem steps_done (p : Loads α) : Steps d (p.accesses d).length p (done (p.runOn d)) := by
  induction p with
  | done a => exact .refl (done a)
  | load off n k ih => exact .load (ih _)

theorem within_pure (a : α) : (pure a : Loads α).Within size := trivial

theorem Within.bind (hp : p.Within size) {f : α → Loads β} (hf : ∀ a, (f a).Within size) :
    (p >>= f).Within size := by
  induction p with
  | done a => exact hf a
  | load off n k ih => exact ⟨hp.1, fun bs => ih bs (hp.2 bs)⟩

theorem Within.ite {c : Prop} [Decidable c] {q : Loads α} (hp : c → p.Within size)
    (hq : ¬c → q.Within size) : (if c then p else q).Within size := by
  split
  · exact hp ‹_›
  · exact hq ‹_›

/-- No access lies beyond the first `size` bytes. -/
theorem Within.accesses (hp : p.Within size) (d : ByteMem) :
    ∀ a ∈ p.accesses d, a.1 + a.2 ≤ size := by
  induction p with
  | done a => exact nofun
  | load off n k ih =>
      intro a ha
      rcases List.mem_cons.mp ha with rfl | hrest
      · exact hp.1
      · exact ih _ (hp.2 _) a hrest

end Loads

/-! ## Stores -/

/-- One store of a block. -/
structure Store where
  off : Nat
  len : Nat
  bytes : Fin len → UInt8

namespace Store

/-- The memory after the store. -/
def apply (d : ByteMem) (s : Store) : ByteMem := d.store s.off s.bytes

/-- Each byte after a store whose bytes are given by their place in the block. -/
theorem apply_eq {s : Store} {f : Nat → UInt8} (hf : ∀ i, s.bytes i = f i) (d : ByteMem) (j : Nat) :
    s.apply d j = if s.off ≤ j ∧ j < s.off + s.len then f (j - s.off) else d j := by
  by_cases h : s.off ≤ j ∧ j < s.off + s.len
  · rw [if_pos h, ← hf ⟨j - s.off, by omega⟩]
    exact dif_pos h
  · rw [if_neg h]
    exact dif_neg h

/-- The memory after several stores. -/
def applyAll (d : ByteMem) (ss : List Store) : ByteMem := ss.foldl apply d

@[simp] theorem applyAll_nil (d : ByteMem) : applyAll d [] = d := rfl

@[simp] theorem applyAll_cons (d : ByteMem) (s : Store) (ss : List Store) :
    applyAll d (s :: ss) = applyAll (s.apply d) ss := rfl

theorem applyAll_append (d : ByteMem) (ss ss' : List Store) :
    applyAll d (ss ++ ss') = applyAll (applyAll d ss) ss' := List.foldl_append

/-- The store writes nothing in the block of `n` bytes at `off`. -/
def Avoids (off n : Nat) (s : Store) : Prop := off + n ≤ s.off ∨ s.off + s.len ≤ off

/-- A block that the stores avoid is not changed by them. -/
theorem load_applyAll {off n : Nat} {ss : List Store} (h : ∀ s ∈ ss, s.Avoids off n) (d : ByteMem) :
    (applyAll d ss).load off n = d.load off n := by
  induction ss generalizing d with
  | nil => rfl
  | cons s ss ih =>
      rw [applyAll_cons, ih (fun s' hs' => h s' (List.mem_cons_of_mem s hs'))]
      exact ByteMem.load_store_of_disjoint (h s List.mem_cons_self)

end Store

end VioletGateway.Support
