import Mathlib.Data.List.AList
import Mathlib.Tactic

/-!
# Sweeps over association maps and maps of queues

`mapMaybe f m` applies `f` to every entry of the map `m`, replacing its value or dropping the entry.
It is a sweep over a map that erases while it iterates: looking up a key afterwards is looking it up
before and applying `f` (`lookup_mapMaybe`).

For a map whose values are lists, `contents` lists everything that is in one of them. Replacing or
erasing one list changes the contents by that list only (`contents_perm_erase`, `contents_insert`).
-/

set_option autoImplicit false

namespace VioletGateway.Support

universe u

variable {α : Type u} {β γ : Type u}

/-- Entry-wise image of a map entry. -/
def mapEntry (f : α → β → Option γ) (e : Σ _ : α, β) : Option (Σ _ : α, γ) :=
  (f e.1 e.2).map fun c => ⟨e.1, c⟩

theorem fst_of_mapEntry {f : α → β → Option γ} {e : Σ _ : α, β} {e' : Σ _ : α, γ}
    (h : mapEntry f e = some e') : e'.1 = e.1 ∧ f e.1 e.2 = some e'.2 := by
  obtain ⟨c, hc, rfl⟩ := Option.map_eq_some_iff.mp h
  exact ⟨rfl, hc⟩

/-- Apply `f` to every entry, replacing its value or dropping it. -/
def mapMaybe (f : α → β → Option γ) (m : AList fun _ : α => β) : AList fun _ : α => γ where
  entries := m.entries.filterMap (mapEntry f)
  nodupKeys := by
    rw [List.nodupKeys_iff_pairwise, List.pairwise_filterMap]
    apply (List.nodupKeys_iff_pairwise.mp m.nodupKeys).imp
    intro e e' hne b hb b' hb'
    rw [(fst_of_mapEntry hb).1, (fst_of_mapEntry hb').1]
    exact hne

theorem entries_mapMaybe (f : α → β → Option γ) (m : AList fun _ : α => β) :
    (mapMaybe f m).entries = m.entries.filterMap (mapEntry f) := rfl

theorem lookup_mapMaybe [DecidableEq α] (f : α → β → Option γ) (m : AList fun _ : α => β) (a : α) :
    (mapMaybe f m).lookup a = (m.lookup a).bind (f a) := by
  apply Option.ext
  intro c
  rw [← Option.mem_def, AList.mem_lookup_iff, entries_mapMaybe, List.mem_filterMap,
    Option.bind_eq_some_iff]
  constructor
  · rintro ⟨⟨a', b⟩, hmem, he⟩
    obtain ⟨hkey, hval⟩ := fst_of_mapEntry he
    obtain rfl : a = a' := hkey
    exact ⟨b, AList.mem_lookup_iff.mpr hmem, hval⟩
  · rintro ⟨b, hb, hval⟩
    refine ⟨⟨a, b⟩, AList.mem_lookup_iff.mp hb, ?_⟩
    simp [mapEntry, hval]

/-! ## Maps of queues -/

section Contents

variable [DecidableEq α]

/-- Everything that is in one of the lists. -/
def contents (m : AList fun _ : α => List β) : List β := m.entries.flatMap Sigma.snd

/-- The list filed under a key, empty if there is none. -/
def listAt (m : AList fun _ : α => List β) (a : α) : List β := (m.lookup a).getD []

@[simp] theorem listAt_insert_self (m : AList fun _ : α => List β) (a : α) (q : List β) :
    listAt (m.insert a q) a = q := by
  rw [listAt, AList.lookup_insert]
  rfl

theorem listAt_insert_ne (m : AList fun _ : α => List β) {a b : α} (h : b ≠ a) (q : List β) :
    listAt (m.insert a q) b = listAt m b := by
  rw [listAt, AList.lookup_insert_ne h]
  rfl

@[simp] theorem listAt_erase_self (m : AList fun _ : α => List β) (a : α) :
    listAt (m.erase a) a = [] := by
  rw [listAt, AList.lookup_erase]
  rfl

theorem listAt_erase_ne (m : AList fun _ : α => List β) {a b : α} (h : b ≠ a) :
    listAt (m.erase a) b = listAt m b := by
  rw [listAt, AList.lookup_erase_ne h]
  rfl

theorem flatMap_kerase_perm (l : List (Σ _ : α, List β)) (a : α) :
    (l.flatMap Sigma.snd).Perm ((l.dlookup a).getD [] ++ (l.kerase a).flatMap Sigma.snd) := by
  induction l with
  | nil => exact .refl _
  | cons e l ih =>
      obtain ⟨b, q⟩ := e
      by_cases h : a = b
      · subst h
        have herase : (List.kerase a (⟨a, q⟩ :: l) : List (Σ _ : α, List β)) = l :=
          List.kerase_cons_eq rfl
        rw [List.dlookup_cons_eq, herase]
        exact .refl _
      · rw [List.dlookup_cons_ne _ _ h, List.kerase_cons_ne h, List.flatMap_cons, List.flatMap_cons]
        exact (ih.append_left q).trans (List.perm_append_comm_assoc _ _ _)

/-- The contents are the list at `a` and the contents of the rest. -/
theorem contents_perm_erase (m : AList fun _ : α => List β) (a : α) :
    (contents m).Perm (listAt m a ++ contents (m.erase a)) :=
  flatMap_kerase_perm m.entries a

theorem contents_insert (m : AList fun _ : α => List β) (a : α) (q : List β) :
    contents (m.insert a q) = q ++ contents (m.erase a) := by
  rw [contents, AList.entries_insert, List.flatMap_cons]
  rfl

theorem mem_contents {m : AList fun _ : α => List β} {x : β} :
    x ∈ contents m ↔ ∃ a, x ∈ listAt m a := by
  rw [contents, List.mem_flatMap]
  constructor
  · rintro ⟨⟨a, q⟩, hmem, hx⟩
    refine ⟨a, ?_⟩
    rw [listAt, AList.mem_lookup_iff.mpr hmem]
    exact hx
  · rintro ⟨a, hx⟩
    rw [listAt] at hx
    cases hq : m.lookup a with
    | none => simp [hq] at hx
    | some q =>
        rw [hq] at hx
        exact ⟨⟨a, q⟩, AList.mem_lookup_iff.mp hq, hx⟩

omit [DecidableEq α] in
/-- A sweep that filters every list and drops the empty ones filters the contents. -/
theorem contents_mapMaybe_filter (keep : β → Bool) (m : AList fun _ : α => List β) :
    contents (mapMaybe (fun _ q => if q.filter keep = [] then none else some (q.filter keep)) m) =
      (contents m).filter keep := by
  simp only [contents]
  rw [entries_mapMaybe]
  induction m.entries with
  | nil => rfl
  | cons e l ih =>
      rw [List.flatMap_cons, List.filter_append, ← ih]
      by_cases h : e.2.filter keep = []
      · rw [List.filterMap_cons_none (by simp [mapEntry, h]), h, List.nil_append]
      · rw [List.filterMap_cons_some (b := ⟨e.1, e.2.filter keep⟩) (by simp [mapEntry, h]),
          List.flatMap_cons]

end Contents

end VioletGateway.Support
