import Mathlib.Tactic

/-!
# Runs of a deterministic system

A system is a function `step` from a state and an event to the next state; `run` feeds it a list of
events. A property that every step preserves holds after every run (`run_invariant`), and so does a
reflexive and transitive relation between the states before and after a step (`run_relation`).
`Along` says that every event of a run satisfies a condition in the state in which it occurs, `outputs`
collects what the steps of a run put out, and `MostRecent` picks the last event of a kind out of a
history.
-/

set_option autoImplicit false

namespace VioletGateway.Support

universe u v

variable {σ : Type u} {ε : Type v} (step : σ → ε → σ)

/-- The state after a list of events. -/
def run (s : σ) (es : List ε) : σ := es.foldl step s

@[simp] theorem run_nil (s : σ) : run step s [] = s := rfl

@[simp] theorem run_cons (s : σ) (e : ε) (es : List ε) :
    run step s (e :: es) = run step (step s e) es := rfl

theorem run_append (s : σ) (es es' : List ε) :
    run step s (es ++ es') = run step (run step s es) es' := List.foldl_append

/-- `s'` is reached from `s` by some run. -/
def Reaches (s s' : σ) : Prop := ∃ es, run step s es = s'

/-- Every event of the run satisfies `ok` in the state in which it occurs. -/
def Along (ok : σ → ε → Prop) : σ → List ε → Prop
  | _, [] => True
  | s, e :: es => ok s e ∧ Along ok (step s e) es

variable {step}

theorem Reaches.refl (s : σ) : Reaches step s s := ⟨[], rfl⟩

theorem Reaches.run {s s' : σ} (h : Reaches step s s') (es : List ε) :
    Reaches step s (run step s' es) := by
  obtain ⟨es₀, rfl⟩ := h
  exact ⟨es₀ ++ es, run_append step s es₀ es⟩

theorem Reaches.next {s s' : σ} (h : Reaches step s s') (e : ε) : Reaches step s (step s' e) :=
  h.run [e]

/-- What every step preserves, every run preserves. -/
theorem run_invariant {P : σ → Prop} (hstep : ∀ s e, P s → P (step s e)) {s : σ} (h : P s)
    (es : List ε) : P (run step s es) := by
  induction es generalizing s with
  | nil => exact h
  | cons e es ih => exact ih (hstep s e h)

/-- What every step preserves, every reachable state has. -/
theorem Reaches.invariant {P : σ → Prop} (hstep : ∀ s e, P s → P (step s e)) {s s' : σ}
    (h : Reaches step s s') (hs : P s) : P s' := by
  obtain ⟨es, rfl⟩ := h
  exact run_invariant hstep hs es

/-- A preorder that relates the states before and after every step from an invariant state relates
the ends of every run. -/
theorem run_relation {P : σ → Prop} {R : σ → σ → Prop} (hstep : ∀ s e, P s → P (step s e))
    (hrefl : ∀ s, R s s) (htrans : ∀ {a b c}, R a b → R b c → R a c)
    (hR : ∀ s e, P s → R s (step s e)) {s : σ} (h : P s) (es : List ε) : R s (run step s es) := by
  induction es generalizing s with
  | nil => exact hrefl s
  | cons e es ih => exact htrans (hR s e h) (ih (hstep s e h))

theorem run_concat (s : σ) (es : List ε) (e : ε) :
    run step s (es ++ [e]) = step (run step s es) e := run_append step s es [e]

/-- If exactly the events that satisfy `ok` preserve `P`, then `P` holds all along a run exactly when
all its events satisfy `ok`. -/
theorem forall_prefix_iff_along {P : σ → Prop} {ok : σ → ε → Prop}
    (hstep : ∀ s e, P s → (P (step s e) ↔ ok s e)) {s : σ} (h : P s) {es : List ε} :
    (∀ es', es' <+: es → P (run step s es')) ↔ Along step ok s es := by
  induction es generalizing s with
  | nil => simpa [Along] using h
  | cons e es ih =>
      constructor
      · intro hall
        have hnext : P (step s e) := hall [e] ⟨es, rfl⟩
        refine ⟨(hstep s e h).mp hnext, (ih hnext).mp ?_⟩
        rintro es' ⟨rest, rfl⟩
        exact hall (e :: es') ⟨rest, rfl⟩
      · rintro ⟨hok, hrest⟩ es' ⟨rest, heq⟩
        cases es' with
        | nil => exact h
        | cons e' es' =>
            rw [List.cons_append, List.cons.injEq] at heq
            obtain ⟨rfl, rfl⟩ := heq
            exact (ih ((hstep s e' h).mpr hok)).mpr hrest es' ⟨rest, rfl⟩

/-- What the events of a run preserve, the run preserves. -/
theorem run_invariant_of_mem {P : σ → Prop} {es : List ε}
    (hstep : ∀ s, ∀ e ∈ es, P s → P (step s e)) {s : σ} (h : P s) : P (run step s es) := by
  induction es generalizing s with
  | nil => exact h
  | cons e es ih =>
      apply ih (fun s e' he' => hstep s e' (List.mem_cons_of_mem e he'))
      exact hstep s e List.mem_cons_self h

/-! ## Output of a run -/

section Outputs

variable {β : Type*} (step) (out : σ → ε → List β)

/-- What the steps of a run put out, in order. -/
def outputs : σ → List ε → List β
  | _, [] => []
  | s, e :: es => out s e ++ outputs (step s e) es

theorem outputs_concat (s : σ) (es : List ε) (e : ε) :
    outputs step out s (es ++ [e]) = outputs step out s es ++ out (run step s es) e := by
  induction es generalizing s with
  | nil => simp [outputs]
  | cons e' es ih => rw [List.cons_append, outputs, outputs, ih, List.append_assoc, run_cons]

end Outputs

/-! ## Runs with a clock -/

section Clock

variable {τ : Type*} [LE τ] (time : ε → τ) {P : τ → σ → Prop}

/-- A property that mentions the present, that the passing of time preserves, and that every event
preserves at its own time, holds at the end of a run whose clock does not run backwards. -/
theorem run_clocked (hmono : ∀ {t t' s}, t ≤ t' → P t s → P t' s)
    (hstep : ∀ s e, P (time e) s → P (time e) (step s e)) {t t' : τ} {s : σ} (h : P t s)
    {es : List ε} (hclock : (es.map time).Pairwise (· ≤ ·)) (hstart : ∀ e ∈ es, t ≤ time e)
    (hend : ∀ e ∈ es, time e ≤ t') (hle : t ≤ t') : P t' (run step s es) := by
  induction es generalizing s t with
  | nil => exact hmono hle h
  | cons e es ih =>
      rw [List.map_cons, List.pairwise_cons] at hclock
      have hnow : P (time e) s := hmono (hstart e List.mem_cons_self) h
      refine ih (hstep s e hnow) hclock.2 ?_ (fun e' he' => hend e' (List.mem_cons_of_mem e he')) ?_
      · exact fun e' he' => hclock.1 _ (List.mem_map_of_mem he')
      · exact hend e List.mem_cons_self

end Clock

/-! ## The most recent event of a kind -/

section MostRecent

variable {β : Type*}

/-- The most recent event of the kind `hit` says `b`, and the events after it are `later`. -/
def MostRecent (hit : ε → Option β) (b : β) (later es : List ε) : Prop :=
  ∃ earlier e, es = earlier ++ e :: later ∧ hit e = some b ∧ ∀ e' ∈ later, hit e' = none

variable {hit : ε → Option β} {b : β} {later es : List ε}

theorem MostRecent.mem (h : MostRecent hit b later es) : ∃ e ∈ es, hit e = some b := by
  obtain ⟨earlier, e, rfl, he, -⟩ := h
  exact ⟨e, by simp, he⟩

/-- One more event is the most recent one of its kind, or the others keep their place. -/
theorem mostRecent_concat (e : ε) :
    MostRecent hit b later (es ++ [e]) ↔
      (later = [] ∧ hit e = some b) ∨
        (hit e = none ∧ ∃ later', later = later' ++ [e] ∧ MostRecent hit b later' es) := by
  constructor
  · rintro ⟨earlier, x, heq, hx, hlater⟩
    rcases List.eq_nil_or_concat later with rfl | ⟨later', y, rfl⟩
    · obtain ⟨-, hlast⟩ := List.append_inj' heq rfl
      obtain rfl : e = x := by simpa using hlast
      exact Or.inl ⟨rfl, hx⟩
    · rw [List.concat_eq_append] at heq hlater ⊢
      have hsplit : es ++ [e] = (earlier ++ x :: later') ++ [y] := by
        rw [heq, List.append_assoc, List.cons_append]
      obtain ⟨hes, hlast⟩ := List.append_inj' hsplit rfl
      obtain rfl : e = y := by simpa using hlast
      refine Or.inr ⟨hlater e (by simp), later', rfl, earlier, x, hes, hx, ?_⟩
      exact fun e' he' => hlater e' (List.mem_append_left _ he')
  · rintro (⟨rfl, he⟩ | ⟨hnone, later', rfl, earlier, x, rfl, hx, hlater⟩)
    · exact ⟨es, e, rfl, he, by simp⟩
    · refine ⟨earlier, x, by simp, hx, ?_⟩
      intro e' he'
      rcases List.mem_append.mp he' with hold | hnew
      · exact hlater e' hold
      · rw [List.mem_singleton.mp hnew]
        exact hnone

end MostRecent

end VioletGateway.Support
