import VioletGateway.Control.Format
import VioletGateway.Support.Run

/-!
# Publishing and polling, interleaved

One publisher at a time, the gateway or the tool `vgwcp`, and one poller share the block. A publish is
the load of the version and then its stores, a poll its loads; each load and each store of a field is
one step, and a run interleaves them in any way.

The state records what the steps themselves do not need: the configurations that have been published
and, for each poll that applied one, how many publishes were complete when it loaded the version and
when it returned, and whether it copied while a publish was storing.
-/

set_option autoImplicit false

namespace VioletGateway

open Support Shm

/-- A call of `CpShm::publish`, or of the tool's `publish` behind the check of its `main`. -/
inductive Request
  | cpShm (seed : CpUpdate)
  | vgwcp (policy : BalancePolicy) (ups : List ((Fin 4 → UInt8) × UInt16))
      (hups : ups.length ≤ maxEp)

namespace Request

def publish : Request → Loads (List Store)
  | cpShm seed => Shm.publish seed
  | vgwcp policy ups _ => Vgwcp.publish (policyByte policy) (Vgwcp.parseUpstreams ups)

/-- The configuration that the request publishes. -/
def config : Request → CpUpdate
  | cpShm seed => written seed
  | vgwcp policy ups _ => Vgwcp.requested policy ups

/-- The gateway publishes by a `CpShm`, and `open` gives none unless the magic is valid. -/
def Possible (d : ByteMem) : Request → Prop
  | cpShm _ => HasMagic d
  | vgwcp .. => True

instance (d : ByteMem) : (r : Request) → Decidable (r.Possible d)
  | cpShm _ => inferInstanceAs (Decidable (HasMagic d))
  | vgwcp .. => inferInstanceAs (Decidable True)

end Request

namespace Shm

/-- A publish under way. -/
structure Publishing where
  config : CpUpdate
  /-- the stores made -/
  done : List Store
  /-- the stores to come -/
  rest : List Store

/-- A call of `poll_apply` under way. -/
structure Polling where
  /-- the loads to come -/
  rest : Loads Found
  /-- how many publishes were complete when the version was loaded first -/
  seenAt : Option Nat := none
  /-- some load of the configuration was made while a publish was storing -/
  overlapped : Bool := false

/-- A call of `poll_apply` that returned `true`. -/
structure Install where
  config : CpUpdate
  seenAt : Nat
  /-- how many publishes were complete when the call returned -/
  doneAt : Nat
  overlapped : Bool
deriving DecidableEq

/-- The publisher, the poller and their shared memory. -/
structure Control where
  mem : ByteMem
  pub : Option Publishing := none
  poll : Option Polling := none
  /-- `last_applied_` -/
  lastApplied : UInt32 := 0
  table : UpstreamTable := {}
  /-- what has been published, the seed included -/
  published : List CpUpdate := []
  /-- the polls that returned `true`, the last one first -/
  log : List Install := []

inductive Event
  | publish (r : Request)
  | store
  | poll
  | load

namespace Control

/-- The stores that the publish under way has made. -/
def stored (s : Control) : List Store :=
  match s.pub with
  | some p => p.done
  | none => []

/-- A poll that has `rest` to do goes on, or returns. -/
def resume (s : Control) (q : Polling) : Loads Found → Control
  | .done none => { s with poll := none }
  | .done (some (ver, u)) =>
    { s with
      poll := none
      table := s.table.apply u
      lastApplied := ver
      log := ⟨u, q.seenAt.getD 0, s.published.length, q.overlapped⟩ :: s.log }
  | .load off n k => { s with poll := some { q with rest := .load off n k } }

/-- What a load of the bytes at `off` records. -/
def note (s : Control) (off : Nat) (q : Polling) : Polling :=
  { q with
    seenAt := if off = versionOff then q.seenAt <|> some s.published.length else q.seenAt
    overlapped := q.overlapped || decide (policyOff ≤ off) && !s.stored.isEmpty }

/-- One step of the publisher or of the poller. -/
def step (s : Control) : Event → Control
  | .publish r =>
    match s.pub with
    -- one publisher at a time
    | some _ => s
    -- its one load is that of the version
    | none =>
      if r.Possible s.mem then { s with pub := some ⟨r.config, [], r.publish.runOn s.mem⟩ } else s
  | .store =>
    match s.pub with
    -- the last store publishes
    | some ⟨config, _, [x]⟩ =>
      { s with mem := x.apply s.mem, pub := none, published := s.published ++ [config] }
    | some ⟨config, done, x :: rest⟩ =>
      { s with mem := x.apply s.mem, pub := some ⟨config, done ++ [x], rest⟩ }
    | _ => s
  | .poll =>
    match s.poll with
    | some _ => s
    | none => { s with poll := some { rest := pollApply s.lastApplied } }
  | .load =>
    match s.poll with
    | some q =>
      match q.rest with
      | .load off n k => s.resume (s.note off q) (k (s.mem.load off n))
      | .done _ => s
    | none => s

end Control

/-- How the block came to be. -/
inductive Origin
  /-- by the gateway, `CpShm::open` with its seed if it has one -/
  | gateway (seed : Option CpUpdate)
  /-- by the tool, which finds zeros -/
  | vgwcp

/-- The state before the first step. -/
def Origin.initial : Origin → Control
  | gateway seed =>
    { mem := Store.applyAll 0 (openCreate seed), published := (seed.map written).toList }
  | vgwcp => { mem := 0 }

/-! ## Versions -/

/-- The version after `n` publishes. -/
def versionAt (n : Nat) : UInt32 := nextVersion^[n] 0

theorem versionAt_succ (n : Nat) : versionAt (n + 1) = nextVersion (versionAt n) :=
  Function.iterate_succ_apply' nextVersion n 0

theorem versionAt_ne_zero {n : Nat} (hn : 1 ≤ n) : versionAt n ≠ 0 := by
  obtain ⟨m, rfl⟩ := Nat.exists_eq_add_of_le' hn
  rw [versionAt_succ]
  exact nextVersion_ne_zero _

theorem toNat_nextVersion (cur : UInt32) :
    (nextVersion cur).toNat = if cur.toNat = 4294967295 then 1 else cur.toNat + 1 := by
  have hlt := cur.toNat_lt
  have hsum : (cur + 1).toNat = (cur.toNat + 1) % 4294967296 := UInt32.toNat_add cur 1
  rw [nextVersion]
  by_cases hmax : cur.toNat = 4294967295
  · have hwrap : cur + 1 = 0 := by
      apply UInt32.toNat.inj
      rw [hsum, hmax]
      rfl
    rw [if_pos hwrap, if_pos hmax]
    rfl
  · have hnext : (cur + 1).toNat = cur.toNat + 1 := by omega
    have hne : cur + 1 ≠ 0 := by
      intro h
      rw [h] at hnext
      exact absurd hnext (Nat.succ_ne_zero _).symm
    rw [if_neg hne, if_neg hmax, hnext]

/-- The versions count up from 1 to the last one and then start again at 1. -/
theorem toNat_versionAt (n : Nat) : (versionAt (n + 1)).toNat = n % 4294967295 + 1 := by
  induction n with
  | zero => rfl
  | succ n ih =>
      rw [versionAt_succ, toNat_nextVersion, ih]
      split_ifs <;> omega

/-- Fewer than a full round of publishes apart, two versions differ. -/
theorem versionAt_inj {k n : Nat} (hk : 1 ≤ k) (hkn : k ≤ n) (hround : n - k < 4294967295)
    (h : versionAt n = versionAt k) : n = k := by
  obtain ⟨k, rfl⟩ := Nat.exists_eq_add_of_le' hk
  obtain ⟨n, rfl⟩ := Nat.exists_eq_add_of_le' (le_trans hk hkn)
  have hmod := congrArg UInt32.toNat h
  rw [toNat_versionAt, toNat_versionAt] at hmod
  omega

/-! ## The stores of a publish -/

theorem avoids_storeEndpoint (i : Nat) (e : UpstreamEndpoint) :
    ∀ x ∈ storeEndpoint i e, x.Avoids versionOff 4 := by
  intro x hx
  simp only [storeEndpoint, List.mem_cons, List.not_mem_nil, or_false] at hx
  left
  rcases hx with rfl | rfl | rfl
  all_goals
    simp only [versionOff, store32, store16, endpointOff]
    omega

/-- The stores of the gateway's writer before the last one leave the version alone. -/
theorem avoids_seedStores (seed : CpUpdate) : ∀ x ∈ seedStores seed, x.Avoids versionOff 4 := by
  intro x hx
  simp only [seedStores, List.mem_append, List.mem_flatMap] at hx
  rcases hx with (hhead | ⟨i, -, hx⟩) | ⟨i, -, hx⟩
  · simp only [List.mem_cons, List.not_mem_nil, or_false] at hhead
    rcases hhead with rfl | rfl | rfl
    · exact Or.inl (show 8 ≤ 8 by decide)
    · exact Or.inl (show 8 ≤ 9 by decide)
    · exact Or.inl (show 8 ≤ 10 by decide)
  · exact avoids_storeEndpoint i _ x hx
  · exact avoids_storeEndpoint i _ x hx

/-- So do those of the tool. -/
theorem avoids_dataStores (policy : UInt8) (eps : List Vgwcp.Endpoint) :
    ∀ x ∈ Vgwcp.dataStores policy eps, x.Avoids versionOff 4 := by
  intro x hx
  simp only [Vgwcp.dataStores, List.mem_append, List.mem_flatMap] at hx
  rcases hx with hhead | ⟨i, -, hx⟩
  · simp only [List.mem_cons, List.not_mem_nil, or_false] at hhead
    rcases hhead with rfl | rfl | rfl | rfl
    · exact Or.inr (by decide)
    · exact Or.inl (show 8 ≤ 8 by decide)
    · exact Or.inl (show 8 ≤ 9 by decide)
    · exact Or.inl (show 8 ≤ 10 by decide)
  · left
    rw [Vgwcp.storeSlot] at hx
    split at hx
    · simp only [List.mem_cons, List.not_mem_nil, or_false] at hx
      rcases hx with rfl | rfl | rfl
      all_goals
        simp only [versionOff, Vgwcp.putBe32, store16, endpointOff]
        omega
    · obtain ⟨j, -, rfl⟩ := List.mem_map.mp hx
      simp only [versionOff, store8, endpointOff]
      omega

end Shm

namespace Request

variable (r : Request) (d : ByteMem)

theorem config_length : r.config.endpoints.length ≤ maxEp := by
  cases r with
  | cpShm seed =>
      rw [config, written_length]
      exact (seedCount_le seed).1
  | vgwcp policy ups hups =>
      rw [config, Vgwcp.requested, List.length_map]
      exact hups

/-- The version is stored last, and no store before touches it. -/
theorem publish_eq : ∃ data, r.publish.runOn d =
    data ++ [store32 versionOff (nextVersion (loadVersion.runOn d))] ∧
      ∀ x ∈ data, x.Avoids versionOff 4 := by
  cases r with
  | cpShm seed => exact ⟨seedStores seed, rfl, avoids_seedStores seed⟩
  | vgwcp policy ups hups =>
      exact ⟨Vgwcp.dataStores (policyByte policy) (Vgwcp.parseUpstreams ups), rfl,
        avoids_dataStores _ _⟩

/-- All its stores make the image of the configuration under the next version. -/
theorem applyAll_publish {d : ByteMem} (h : r.Possible d) : Store.applyAll d (r.publish.runOn d) =
    image d (nextVersion (loadVersion.runOn d)) r.config := by
  cases r with
  | cpShm seed => exact applyAll_publish_seed h seed
  | vgwcp policy ups hups => exact applyAll_publish_requested d policy hups

end Request

namespace Shm

/-! ## The loads of a poll -/

/-- What is left of a poll that copies under the version `ver`: loads of the configuration, and the
second load of the version at the end. -/
inductive Copying (ver : UInt32) : Loads Found → Prop
  | recheck (policy : UInt8) (eps : List UpstreamEndpoint) : Copying ver (recheck ver policy eps)
  | data {off n : Nat} {k : (Fin n → UInt8) → Loads Found} (hoff : policyOff ≤ off)
      (hk : ∀ bs, Copying ver (k bs)) : Copying ver (.load off n k)

theorem copying_copyEndpoints (ver : UInt32) (policy : UInt8) (m : Nat)
    (eps : List UpstreamEndpoint) : Copying ver (copyEndpoints ver policy m eps) := by
  induction m generalizing eps with
  | zero => exact .recheck policy eps
  | succ m ih =>
      have hoff : policyOff ≤ endpointOff eps.length := by
        simp only [policyOff, endpointOff]
        omega
      exact .data hoff fun _ => .data (Nat.le_add_right_of_le hoff) fun _ => ih _

theorem copying_copyCount (ver : UInt32) (policy : UInt8) : Copying ver (copyCount ver policy) :=
  .data (show 8 ≤ 10 by decide) fun _ => copying_copyEndpoints ver policy _ []

theorem copying_copyConfig (ver : UInt32) : Copying ver (copyConfig ver) :=
  .data le_rfl fun _ => copying_copyCount ver _

/-! ## The invariant -/

/-- The memory as the last publish left it. -/
structure Settled (published : List CpUpdate) (m : ByteMem) : Prop where
  version : loadVersion.runOn m = versionAt published.length
  image_eq : ∀ u, published.getLast? = some u → ∃ d, m = image d (versionAt published.length) u

/-- A publish under way, over the memory `m`. -/
structure Publishes (published : List CpUpdate) (m : ByteMem) (p : Publishing) : Prop where
  length_le : p.config.endpoints.length ≤ maxEp
  rest_ne_nil : p.rest ≠ []
  avoids : ∀ x ∈ (p.done ++ p.rest).dropLast, x.Avoids versionOff 4
  settles : Settled (published ++ [p.config]) (Store.applyAll m (p.done ++ p.rest))

/-- A poll that has loaded the version after `k` publishes. If no publish has been completed since, and
none was storing while it copied, then what it is about to find is the configuration of the last one. -/
structure Copies (published : List CpUpdate) (stored : List Store) (m : ByteMem) (q : Polling)
    (k : Nat) : Prop where
  seenAt_eq : q.seenAt = some k
  pos : 1 ≤ k
  le_length : k ≤ published.length
  copying : Copying (versionAt k) q.rest
  overlap : q.overlapped = true → stored ≠ [] ∨ k < published.length
  finds : q.overlapped = false → k = published.length →
    ∀ u, published.getLast? = some u → q.rest.runOn m = some (versionAt k, u)

/-- A poll that has not loaded the version yet. -/
structure Starts (lastApplied : UInt32) (q : Polling) : Prop where
  seenAt_eq : q.seenAt = none
  overlapped_eq : q.overlapped = false
  rest_eq : q.rest = pollApply lastApplied ∨ q.rest = pollVersion lastApplied

/-- A poll that copied undisturbed, within one round of versions, installed the configuration that was
the last one published when it loaded the version. -/
structure Install.Sound (published : List CpUpdate) (a : Install) : Prop where
  pos : 1 ≤ a.seenAt
  seenAt_le : a.seenAt ≤ a.doneAt
  doneAt_le : a.doneAt ≤ published.length
  config_eq : a.overlapped = false → a.doneAt - a.seenAt < 4294967295 →
    published[a.seenAt - 1]? = some a.config

/-- The poll that returned last left its mark. If its version is still the present one and no publish
is storing, then the table holds what was published last. -/
structure Applied (published : List CpUpdate) (stored : List Store) (lastApplied : UInt32)
    (table : UpstreamTable) (a : Install) : Prop where
  lastApplied_eq : lastApplied = versionAt a.seenAt
  policy_eq : table.policy = a.config.policy
  nodes_eq : table.nodes = a.config.endpoints
  current : a.seenAt = published.length → stored = [] → published.getLast? = some a.config

namespace Control

/-- The invariant; `m` is the memory when the last publish was completed. -/
structure Inv (s : Control) (m : ByteMem) : Prop where
  length_le : ∀ u ∈ s.published, u.endpoints.length ≤ maxEp
  settled : Settled s.published m
  mem_eq : s.mem = Store.applyAll m s.stored
  pub : ∀ p, s.pub = some p → Publishes s.published m p
  poll : ∀ q, s.poll = some q →
    Starts s.lastApplied q ∨ ∃ k, Copies s.published s.stored m q k
  log : ∀ a ∈ s.log, a.Sound s.published
  never : s.log = [] → s.lastApplied = 0
  last : ∀ a, s.log.head? = some a → Applied s.published s.stored s.lastApplied s.table a

end Control

theorem Install.Sound.append {published : List CpUpdate} {a : Install} (h : a.Sound published)
    (u : CpUpdate) : a.Sound (published ++ [u]) := by
  have hlen : (published ++ [u]).length = published.length + 1 := List.length_append
  refine ⟨h.pos, h.seenAt_le, ?_, ?_⟩
  · have hle := h.doneAt_le
    omega
  · intro hclean hround
    have hget := h.config_eq hclean hround
    rw [List.getElem?_append_left (List.getElem?_eq_some_iff.mp hget).1]
    exact hget

theorem Settled.publish {published : List CpUpdate} {m : ByteMem} (h : Settled published m)
    {r : Request} (hr : r.Possible m) :
    Settled (published ++ [r.config]) (Store.applyAll m (r.publish.runOn m)) := by
  have hresult := r.applyAll_publish hr
  rw [h.version, ← versionAt_succ] at hresult
  rw [hresult]
  constructor
  · rw [load_version_image, List.length_append, List.length_singleton]
  · intro u hu
    rw [List.getLast?_concat] at hu
    cases hu
    exact ⟨m, by rw [List.length_append, List.length_singleton]⟩

/-- The copy of a settled memory is the configuration published last. -/
theorem Settled.runOn_copyConfig {published : List CpUpdate} {m : ByteMem} (h : Settled published m)
    (hlen : ∀ u ∈ published, u.endpoints.length ≤ maxEp) {u : CpUpdate}
    (hu : published.getLast? = some u) :
    (copyConfig (versionAt published.length)).runOn m = some (versionAt published.length, u) := by
  obtain ⟨d, rfl⟩ := h.image_eq u hu
  rw [Shm.runOn_copyConfig d _ (hlen u (List.mem_of_getLast? hu)), if_pos rfl]

namespace Control

variable {s : Control} {m : ByteMem}

theorem stored_of_none (h : s.pub = none) : s.stored = [] := by rw [stored, h]

theorem stored_of_some {p : Publishing} (h : s.pub = some p) : s.stored = p.done := by rw [stored, h]

/-- Whatever has been stored, the version is still that of the last publish. -/
theorem Inv.load_version (h : s.Inv m) : loadVersion.runOn s.mem = versionAt s.published.length := by
  have havoids : ∀ x ∈ s.stored, x.Avoids versionOff 4 := by
    intro x hx
    cases hp : s.pub with
    | none => exact absurd hx (by rw [stored_of_none hp]; exact List.not_mem_nil)
    | some p =>
        rw [stored_of_some hp] at hx
        have hpub := h.pub p hp
        apply hpub.avoids x
        rw [List.dropLast_append_of_ne_nil hpub.rest_ne_nil]
        exact List.mem_append_left _ hx
  rw [h.mem_eq, ← h.settled.version]
  exact congrArg ofLe32 (Store.load_applyAll havoids m)

/-! ## One step -/

theorem Inv.publish (h : s.Inv m) (r : Request) : (s.step (.publish r)).Inv m := by
  rw [step]
  cases hp : s.pub with
  | some p => exact h
  | none =>
      have hstored := stored_of_none hp
      have hmem : s.mem = m := by rw [h.mem_eq, hstored, Store.applyAll_nil]
      dsimp only
      split_ifs with hr
      · obtain ⟨data, hdata, havoids⟩ := r.publish_eq s.mem
        refine ⟨h.length_le, h.settled, hmem, ?_, ?_, h.log, h.never, ?_⟩
        · intro p hnew
          cases hnew
          refine ⟨r.config_length, ?_, ?_, ?_⟩
          · rw [hdata]
            exact List.append_ne_nil_of_right_ne_nil _ (List.cons_ne_nil _ _)
          · rw [List.nil_append, hdata, List.dropLast_concat]
            exact havoids
          · rw [hmem] at hr ⊢
            exact h.settled.publish hr
        · have hpoll := h.poll
          rw [hstored] at hpoll
          exact hpoll
        · intro a ha
          have hlast := h.last a ha
          exact { hlast with current := fun hk _ => hlast.current hk hstored }
      · exact h

/-- A store that is not the last one of its publish. -/
theorem Inv.store_data (h : s.Inv m) {config : CpUpdate} {done rest : List Store} {x y : Store}
    (hp : s.pub = some ⟨config, done, x :: y :: rest⟩) :
    Inv { s with mem := x.apply s.mem, pub := some ⟨config, done ++ [x], y :: rest⟩ } m := by
  have hpub := h.pub _ hp
  have hsame : done ++ [x] ++ y :: rest = done ++ x :: y :: rest := List.append_assoc done [x] _
  have hne : done ++ [x] ≠ [] := List.append_ne_nil_of_right_ne_nil done (List.cons_ne_nil x [])
  refine ⟨h.length_le, h.settled, ?_, ?_, ?_, h.log, h.never, ?_⟩
  · show x.apply s.mem = Store.applyAll m (done ++ [x])
    rw [h.mem_eq, stored_of_some hp, Store.applyAll_append]
    rfl
  · intro p hnew
    cases hnew
    refine ⟨hpub.length_le, List.cons_ne_nil y rest, ?_, ?_⟩
    · rw [hsame]
      exact hpub.avoids
    · rw [hsame]
      exact hpub.settles
  · intro q hq
    rcases h.poll q hq with hstarts | ⟨k, hcopies⟩
    · exact .inl hstarts
    · exact .inr ⟨k, { hcopies with overlap := fun _ => .inl hne }⟩
  · intro a ha
    exact { h.last a ha with current := fun _ hnil => absurd hnil hne }

/-- The last store of a publish. -/
theorem Inv.store_version (h : s.Inv m) {config : CpUpdate} {done : List Store} {x : Store}
    (hp : s.pub = some ⟨config, done, [x]⟩) :
    Inv { s with mem := x.apply s.mem, pub := none, published := s.published ++ [config] }
      (x.apply s.mem) := by
  have hpub := h.pub _ hp
  have hlen : (s.published ++ [config]).length = s.published.length + 1 := List.length_append
  have hmem : x.apply s.mem = Store.applyAll m (done ++ [x]) := by
    rw [h.mem_eq, stored_of_some hp, Store.applyAll_append]
    rfl
  refine ⟨?_, ?_, rfl, nofun, ?_, ?_, h.never, ?_⟩
  · intro u hu
    rcases List.mem_append.mp hu with hold | hnew
    · exact h.length_le u hold
    · rw [List.mem_singleton.mp hnew]
      exact hpub.length_le
  · rw [hmem]
    exact hpub.settles
  · intro q hq
    rcases h.poll q hq with hstarts | ⟨k, hcopies⟩
    · exact .inl hstarts
    · -- the version that the poll has seen is no longer the present one
      have hlt : k < (s.published ++ [config]).length := by
        have hle := hcopies.le_length
        omega
      exact .inr ⟨k, hcopies.seenAt_eq, hcopies.pos, hlt.le, hcopies.copying, fun _ => .inr hlt,
        fun _ hk => absurd hk hlt.ne⟩
  · intro a ha
    exact (h.log a ha).append config
  · intro a ha
    have hsound := h.log a (List.mem_of_head? ha)
    have hlt : a.seenAt < (s.published ++ [config]).length := by
      have hle := le_trans hsound.seenAt_le hsound.doneAt_le
      omega
    exact { h.last a ha with current := fun hk _ => absurd hk hlt.ne }

theorem Inv.poll_begin (h : s.Inv m) : (s.step .poll).Inv m := by
  rw [step]
  cases hq : s.poll with
  | some q => exact h
  | none =>
      dsimp only
      refine ⟨h.length_le, h.settled, h.mem_eq, h.pub, ?_, h.log, h.never, h.last⟩
      intro q hnew
      cases hnew
      exact .inl ⟨rfl, rfl, .inl rfl⟩

theorem resume_copying {ver : UInt32} {rest : Loads Found} (h : Copying ver rest) (s : Control)
    (q : Polling) : s.resume q rest = { s with poll := some { q with rest := rest } } := by
  cases h <;> rfl

theorem Inv.poll_end (h : s.Inv m) : Inv { s with poll := none } m :=
  ⟨h.length_le, h.settled, h.mem_eq, h.pub, nofun, h.log, h.never, h.last⟩

theorem Inv.poll_next (h : s.Inv m) {q : Polling}
    (hq : Starts s.lastApplied q ∨ ∃ k, Copies s.published s.stored m q k) :
    Inv { s with poll := some q } m := by
  refine ⟨h.length_le, h.settled, h.mem_eq, h.pub, ?_, h.log, h.never, h.last⟩
  intro q' hq'
  cases hq'
  exact hq

/-- Neither the magic nor the version is part of the configuration. -/
theorem note_overlapped_of_lt {off : Nat} (h : off < policyOff) (q : Polling) :
    (s.note off q).overlapped = q.overlapped := by
  simp [note, Nat.not_le.mpr h]

theorem note_overlapped_of_le {off : Nat} (h : policyOff ≤ off) (q : Polling) :
    (s.note off q).overlapped = (q.overlapped || !s.stored.isEmpty) := by
  simp [note, h]

/-- The load of the magic. -/
theorem Inv.load_magic (h : s.Inv m) {q : Polling} (hseen : q.seenAt = none)
    (hover : q.overlapped = false) :
    Inv (s.resume (s.note magicOff q)
      (if (load32 magicOff).runOn s.mem ≠ magic then pure none else pollVersion s.lastApplied)) m := by
  split_ifs with hmagic
  · exact h.poll_end
  · exact h.poll_next (.inl ⟨hseen, (note_overlapped_of_lt (by decide) q).trans hover, .inr rfl⟩)

/-- The first load of the version. -/
theorem Inv.load_first (h : s.Inv m) {q : Polling} (hseen : q.seenAt = none)
    (hover : q.overlapped = false) :
    Inv (s.resume (s.note versionOff q)
      (if loadVersion.runOn s.mem = 0 ∨ loadVersion.runOn s.mem = s.lastApplied then pure none
        else copyConfig (loadVersion.runOn s.mem))) m := by
  rw [h.load_version]
  split_ifs with hold
  · exact h.poll_end
  · have hpos : 1 ≤ s.published.length := by
      by_contra hzero
      have hlen : s.published.length = 0 := by omega
      rw [hlen] at hold
      exact hold (.inl rfl)
    refine h.poll_next (.inr ⟨s.published.length, ?_, hpos, le_rfl, copying_copyConfig _, ?_, ?_⟩)
    · show (q.seenAt <|> some s.published.length) = _
      rw [hseen]
      rfl
    · intro htrue
      have hfalse : (s.note versionOff q).overlapped = false :=
        (note_overlapped_of_lt (by decide) q).trans hover
      exact absurd (hfalse.symm.trans htrue) Bool.false_ne_true
    · intro _ _ u hu
      exact h.settled.runOn_copyConfig h.length_le hu

/-- A load of the policy, the count or an endpoint. -/
theorem Inv.load_data (h : s.Inv m) {q : Polling} {j : Nat}
    (hq : Copies s.published s.stored m q j) {off n : Nat} {k : (Fin n → UInt8) → Loads Found}
    (hrest : q.rest = .load off n k) (hoff : policyOff ≤ off) (hk : ∀ bs, Copying (versionAt j) (k bs)) :
    Inv (s.resume (s.note off q) (k (s.mem.load off n))) m := by
  have hne : off ≠ versionOff := by
    simp only [policyOff, versionOff] at hoff ⊢
    omega
  rw [resume_copying (hk _)]
  refine h.poll_next (.inr ⟨j, ?_, hq.pos, hq.le_length, hk _, ?_, ?_⟩)
  · show (if off = versionOff then _ else q.seenAt) = some j
    rw [if_neg hne]
    exact hq.seenAt_eq
  · intro htrue
    rw [note_overlapped_of_le hoff, Bool.or_eq_true, Bool.not_eq_true',
      List.isEmpty_eq_false_iff] at htrue
    rcases htrue with hbefore | hnow
    · exact hq.overlap hbefore
    · exact .inl hnow
  · intro hfalse hj u hu
    rw [note_overlapped_of_le hoff, Bool.or_eq_false_iff, Bool.not_eq_false',
      List.isEmpty_iff] at hfalse
    -- nothing has been stored, so the load is one of the settled memory
    have hmem : s.mem = m := by rw [h.mem_eq, hfalse.2, Store.applyAll_nil]
    have hfinds := hq.finds hfalse.1 hj u hu
    rw [hrest] at hfinds
    rw [hmem]
    exact hfinds

/-- A poll that no publish has disturbed has copied the configuration published last. -/
theorem Inv.getLast_of_copied (h : s.Inv m) {q : Polling} {k : Nat}
    (hq : Copies s.published s.stored m q k) {policy : UInt8} {eps : List UpstreamEndpoint}
    (hrest : q.rest = recheck (versionAt k) policy eps) (hclean : q.overlapped = false)
    (hk : k = s.published.length) : s.published.getLast? = some ⟨policyOf policy, eps⟩ := by
  have hne : s.published ≠ [] := List.ne_nil_of_length_pos (hk ▸ hq.pos)
  obtain ⟨u, hlast⟩ := Option.ne_none_iff_exists'.mp (mt List.getLast?_eq_none_iff.mp hne)
  have hfinds := hq.finds hclean hk u hlast
  rw [hrest, recheck, Loads.runOn_bind, h.settled.version, ← hk, if_neg (not_not_intro rfl)] at hfinds
  cases hfinds
  exact hlast

/-- The second load of the version. -/
theorem Inv.load_again (h : s.Inv m) {q : Polling} {k : Nat}
    (hq : Copies s.published s.stored m q k) {policy : UInt8} {eps : List UpstreamEndpoint}
    (hrest : q.rest = recheck (versionAt k) policy eps) :
    Inv (s.resume (s.note versionOff q)
      (if loadVersion.runOn s.mem ≠ versionAt k then pure none
        else pure (some (versionAt k, ⟨policyOf policy, eps⟩)))) m := by
  rw [h.load_version]
  by_cases hver : versionAt s.published.length = versionAt k
  swap
  · rw [if_pos hver]
    exact h.poll_end
  rw [if_neg (not_not_intro hver)]
  have hcopied := h.getLast_of_copied hq hrest
  generalize (⟨policyOf policy, eps⟩ : CpUpdate) = u at hcopied ⊢
  have hseen : (s.note versionOff q).seenAt.getD 0 = k := by
    show (q.seenAt <|> some s.published.length).getD 0 = k
    rw [hq.seenAt_eq]
    rfl
  have hover : (s.note versionOff q).overlapped = q.overlapped := note_overlapped_of_lt (by decide) q
  show Inv { s with
    poll := none
    table := s.table.apply u
    lastApplied := versionAt k
    log := ⟨u, _, s.published.length, _⟩ :: s.log } m
  rw [hseen, hover]
  refine ⟨h.length_le, h.settled, h.mem_eq, h.pub, nofun, ?_, nofun, ?_⟩
  · intro a ha
    rcases List.mem_cons.mp ha with rfl | hold
    · refine ⟨hq.pos, hq.le_length, le_rfl, ?_⟩
      intro hclean hround
      have hk := versionAt_inj hq.pos hq.le_length hround hver
      have hlast := hcopied hclean hk.symm
      rw [List.getLast?_eq_getElem?] at hlast
      rw [← hk]
      exact hlast
    · exact h.log a hold
  · intro a ha
    cases ha
    refine ⟨rfl, rfl, rfl, ?_⟩
    intro hk hnone
    refine hcopied ?_ hk
    by_contra htrue
    rcases hq.overlap (Bool.not_eq_false _ ▸ htrue) with hstored | hlt
    · exact hstored hnone
    · exact hlt.ne hk

theorem step_load {q : Polling} (hq : s.poll = some q) {off n : Nat}
    {k : (Fin n → UInt8) → Loads Found} (hrest : q.rest = .load off n k) :
    s.step .load = s.resume (s.note off q) (k (s.mem.load off n)) := by
  simp only [step, hq, hrest]

theorem Inv.load (h : s.Inv m) : (s.step .load).Inv m := by
  cases hq : s.poll with
  | none => rwa [step, hq]
  | some q =>
      rcases h.poll q hq with ⟨hseen, hover, hrest | hrest⟩ | ⟨k, hcopies⟩
      · rw [step_load hq hrest]
        exact h.load_magic hseen hover
      · rw [step_load hq hrest]
        exact h.load_first hseen hover
      · have hcopying := hcopies.copying
        generalize hrest : q.rest = rest at hcopying
        cases hcopying with
        | recheck policy eps =>
            rw [step_load hq hrest]
            exact h.load_again hcopies hrest
        | data hoff hk =>
            rw [step_load hq hrest]
            exact h.load_data hcopies hrest hoff hk

theorem Inv.store (h : s.Inv m) : ∃ m', (s.step .store).Inv m' := by
  cases hp : s.pub with
  | none => exact ⟨m, by rwa [step, hp]⟩
  | some p =>
      obtain ⟨config, done, rest⟩ := p
      rcases rest with _ | ⟨x, _ | ⟨y, rest⟩⟩
      · exact absurd rfl (h.pub _ hp).rest_ne_nil
      · refine ⟨x.apply s.mem, ?_⟩
        simp only [step, hp]
        exact h.store_version hp
      · refine ⟨m, ?_⟩
        simp only [step, hp]
        exact h.store_data hp

theorem Inv.step (h : s.Inv m) (e : Event) : ∃ m', (s.step e).Inv m' := by
  cases e with
  | publish r => exact ⟨m, h.publish r⟩
  | store => exact h.store
  | poll => exact ⟨m, h.poll_begin⟩
  | load => exact ⟨m, h.load⟩

end Control

/-! ## Whole runs -/

theorem inv_of_settled {published : List CpUpdate} {m : ByteMem} (hset : Settled published m)
    (hlen : ∀ u ∈ published, u.endpoints.length ≤ maxEp) :
    Control.Inv { mem := m, published := published } m :=
  ⟨hlen, hset, rfl, nofun, nofun, nofun, fun _ => rfl, nofun⟩

/-- The seed counts as the first publish. -/
theorem settled_seed (seed : CpUpdate) :
    Settled [written seed] (Store.applyAll 0 (openCreate (some seed))) := by
  have hmagic : HasMagic (Store.applyAll 0 [store32 magicOff magic]) := by decide
  have himage : Store.applyAll 0 (openCreate (some seed)) =
      image (Store.applyAll 0 [store32 magicOff magic]) 1 (written seed) := by
    rw [openCreate, Store.applyAll_append]
    exact applyAll_writeSeedUnlocked hmagic seed 1
  rw [himage]
  refine ⟨load_version_image _ _ _, ?_⟩
  intro u hu
  cases hu
  exact ⟨_, rfl⟩

theorem Origin.inv_initial (o : Origin) : ∃ m, o.initial.Inv m := by
  cases o with
  | vgwcp => exact ⟨0, inv_of_settled ⟨rfl, nofun⟩ nofun⟩
  | gateway seed =>
      cases seed with
      | none => exact ⟨_, inv_of_settled ⟨rfl, nofun⟩ nofun⟩
      | some seed =>
          refine ⟨_, inv_of_settled (settled_seed seed) ?_⟩
          intro u hu
          rw [List.mem_singleton.mp hu]
          exact (Request.cpShm seed).config_length

/-- The state after the events `es`. -/
def Origin.after (o : Origin) (es : List Event) : Control := run Control.step o.initial es

theorem Origin.after_append (o : Origin) (es es' : List Event) :
    o.after (es ++ es') = run Control.step (o.after es) es' := run_append _ _ es es'

theorem Origin.inv_after (o : Origin) (es : List Event) : ∃ m, (o.after es).Inv m :=
  run_invariant (P := fun s : Control => ∃ m, s.Inv m) (fun _ e ⟨_, h⟩ => h.step e) o.inv_initial es

/-- In every run, a call of `poll_apply` that returned `true` installed exactly the configuration that
was published last when it loaded the version, unless it copied while a publish was storing or a whole
round of versions went by before its second look at the version. -/
theorem Origin.installs_published (o : Origin) (es : List Event) (a : Install)
    (ha : a ∈ (o.after es).log) :
    (1 ≤ a.seenAt ∧ a.seenAt ≤ a.doneAt ∧ a.doneAt ≤ (o.after es).published.length) ∧
      (a.overlapped = false → a.doneAt - a.seenAt < 2 ^ 32 - 1 →
        (o.after es).published[a.seenAt - 1]? = some a.config) := by
  obtain ⟨m, h⟩ := o.inv_after es
  have hsound := h.log a ha
  exact ⟨⟨hsound.pos, hsound.seenAt_le, hsound.doneAt_le⟩, hsound.config_eq⟩

def labSeed : CpUpdate := ⟨.mod, [⟨0x0100000a, 53⟩]⟩

def labNext : CpUpdate := ⟨.rr, [⟨0x0200000a, 53⟩]⟩

/-- One poll of a block with one endpoint. -/
def labPoll : List Event := .poll :: List.replicate 7 .load

/-- A publish, with a poll after its first store. -/
def labTorn : List Event :=
  [.publish (.cpShm labNext), .store] ++ labPoll ++ List.replicate 195 .store

/-- A publish, and a poll when it is complete. -/
def labUpdate : List Event :=
  .publish (.cpShm labNext) :: List.replicate 196 .store ++ labPoll

/-- The poll installs what was published after the seed. -/
theorem installs_published_lab :
    (⟨labNext, 2, 2, false⟩ : Install) ∈ ((Origin.gateway (some labSeed)).after labUpdate).log ∧
      ((Origin.gateway (some labSeed)).after labUpdate).published[1]? = some labNext := by
  have hinstalled : (⟨labNext, 2, 2, false⟩ : Install) ∈
      ((Origin.gateway (some labSeed)).after labUpdate).log := by
    decide +kernel
  exact ⟨hinstalled, (Origin.installs_published (.gateway (some labSeed)) labUpdate _ hinstalled).2
    rfl (by decide)⟩

end Shm

end VioletGateway
