import VioletGateway.Upstream.Table
import VioletGateway.Support.Run
import VioletGateway.Support.Cyclic

/-!
# Round-robin picks

Under the policy `rr` the counter alone decides: consecutive picks go round the list from wherever
earlier picks, with whatever list and policy, have left it. The counter is never reset, so the start
may be any; `rr_fair` holds as long as it does not wrap, because `2 ^ 64` need not be a multiple of
the length of the list.
-/

set_option autoImplicit false

namespace VioletGateway

open Support

namespace UpstreamTable

variable {t : UpstreamTable}

/-- The position that `pick` selects, `idx` in the source. -/
def index (t : UpstreamTable) (key : FlowKey) : Nat :=
  match t.policy with
  | .rr => t.rrCounter.toNat % t.nodes.length
  | .mod => (hashKey key).toNat % t.nodes.length

/-- What consecutive picks return. -/
def picks (t : UpstreamTable) (keys : List FlowKey) : List (Option UpstreamEndpoint) :=
  outputs (fun t key => (t.pick key).2) (fun t key => [(t.pick key).1]) t keys

/-- The positions that they select. -/
def positions (t : UpstreamTable) (keys : List FlowKey) : List Nat :=
  outputs (fun t key => (t.pick key).2) (fun t key => [t.index key]) t keys

theorem pick_eq_index (hne : t.nodes ≠ []) (key : FlowKey) :
    (t.pick key).1 = t.nodes[t.index key]? := by
  rw [pick, index, if_neg (by simpa using hne)]
  cases t.policy <;> rfl

/-- The picks are what is at the positions. -/
theorem picks_eq (hne : t.nodes ≠ []) (keys : List FlowKey) :
    t.picks keys = (t.positions keys).map fun i => t.nodes[i]? := by
  rw [picks, positions]
  induction keys generalizing t with
  | nil => rfl
  | cons key keys ih =>
      have hnodes := t.pick_nodes key
      have ih := ih (t := (t.pick key).2) (by rw [hnodes]; exact hne)
      rw [outputs, outputs, ih, List.map_append, hnodes, pick_eq_index hne]
      rfl

theorem pick_rr (hrr : t.policy = .rr) (hne : t.nodes ≠ []) (key : FlowKey) :
    (t.pick key).2 = { t with rrCounter := t.rrCounter + 1 } := by
  rw [pick, if_neg (by simpa using hne), hrr]

/-- Round-robin positions go round the list, as long as the counter does not wrap. -/
theorem positions_rr (hrr : t.policy = .rr) (hne : t.nodes ≠ []) (keys : List FlowKey)
    (hwrap : t.rrCounter.toNat + keys.length ≤ 2 ^ 64) :
    t.positions keys = cyclic t.rrCounter.toNat t.nodes.length keys.length := by
  rw [positions]
  induction keys generalizing t with
  | nil => rfl
  | cons key keys ih =>
      rw [List.length_cons] at hwrap ⊢
      have hindex : t.index key = t.rrCounter.toNat % t.nodes.length := by
        rw [index, hrr]
      rw [outputs, pick_rr hrr hne, cyclic_succ, hindex]
      rcases keys with _ | ⟨key', keys'⟩
      · rfl
      · -- another pick follows, so the counter has not reached its end
        have hsucc : (t.rrCounter + 1).toNat = t.rrCounter.toNat + 1 := by
          rw [List.length_cons] at hwrap
          rw [UInt64.toNat_add]
          exact Nat.mod_eq_of_lt (by show _ + 1 < _; omega)
        have ih := ih (t := { t with rrCounter := t.rrCounter + 1 }) hrr hne
          (by rw [hsucc]; omega)
        rw [ih, hsucc]
        rfl

/-- Round-robin is fair from any start: the picks go round the list, every block as long as the list
has each position once, and no position is ahead of another by more than one. -/
theorem rr_fair (hrr : t.policy = .rr) (hne : t.nodes ≠ []) (keys : List FlowKey)
    (hwrap : t.rrCounter.toNat + keys.length ≤ 2 ^ 64) :
    (t.picks keys = (t.positions keys).map fun i => t.nodes[i]?) ∧
      (∀ i < keys.length,
        (t.positions keys)[i]? = some ((t.rrCounter.toNat + i) % t.nodes.length)) ∧
      (∀ j, j + t.nodes.length ≤ keys.length →
        (((t.positions keys).drop j).take t.nodes.length).Perm (List.range t.nodes.length)) ∧
      ∀ p < t.nodes.length, ∀ q < t.nodes.length,
        (t.positions keys).count p ≤ (t.positions keys).count q + 1 := by
  refine ⟨picks_eq hne keys, ?_, ?_, ?_⟩
  · intro i hi
    rw [positions_rr hrr hne keys hwrap]
    rw [cyclic, List.getElem?_map, List.getElem?_range hi]
    rfl
  · intro j hj
    rw [positions_rr hrr hne keys hwrap]
    exact cyclic_block _ _ hj
  · intro p hp q hq
    rw [positions_rr hrr hne keys hwrap]
    have hcount := count_cyclic t.rrCounter.toNat hp keys.length
    have hcount' := count_cyclic t.rrCounter.toNat hq keys.length
    omega

/-- Three picks from a list of two, with a counter that earlier picks have left at the highest start
that three picks allow. -/
theorem rr_fair_two :
    ((⟨.rr, [⟨1, 53⟩, ⟨2, 53⟩], .ofNat (2 ^ 64 - 3)⟩ : UpstreamTable).positions
      (List.replicate 3 ⟨0, 0, 0, 0, 0⟩)).count 0 ≤
    ((⟨.rr, [⟨1, 53⟩, ⟨2, 53⟩], .ofNat (2 ^ 64 - 3)⟩ : UpstreamTable).positions
      (List.replicate 3 ⟨0, 0, 0, 0, 0⟩)).count 1 + 1 :=
  (rr_fair rfl (by decide) _ (by decide)).2.2.2 0 (by decide) 1 (by decide)

end UpstreamTable

end VioletGateway
