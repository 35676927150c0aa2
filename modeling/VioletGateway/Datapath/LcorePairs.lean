import VioletGateway.Datapath.Manager

/-!
# Which ports get their loops

In pipeline mode two enabled ports in a row are given the same pair of lcores before the next pair is
fetched. The loops of the first run until they are stopped, so those of the second are never started:
the launch fails, and its result is not looked at. After `init` the ports at even places are served, and
no others (`NetifManager.served_iff`), which is every port only if there is at most one.

`init` returns if the rings are created and there is a worker lcore for every loop that is to be launched
(`NetifManager.init_isSome_iff`).
-/

set_option autoImplicit false

namespace VioletGateway

/-! ## The loop over the ports -/

theorem lookup_insertNew {netifs : AList fun _ : Nat => Nat} {port : Nat}
    (hnew : netifs.lookup port = none) (netif i : Nat) :
    (insertNew netifs port netif).lookup i = if i = port then some netif else netifs.lookup i := by
  rw [insertNew, hnew, if_neg (by simp)]
  by_cases hi : i = port
  · rw [if_pos hi, hi, AList.lookup_insert]
  · rw [if_neg hi, AList.lookup_insert_ne hi]

theorem getElem?_concat_iff {done : List Nat} {i k j : Nat} :
    (done ++ [i])[k]? = some j ↔ done[k]? = some j ∨ k = done.length ∧ j = i := by
  rcases Nat.lt_trichotomy k done.length with hlt | heq | hgt
  · rw [List.getElem?_append_left hlt]
    simp [hlt.ne]
  · rw [heq, List.getElem?_concat_length, List.getElem?_eq_none le_rfl]
    simp [eq_comm]
  · rw [List.getElem?_eq_none (by rw [List.length_append]; exact hgt), List.getElem?_eq_none hgt.le]
    simp [hgt.ne']

/-- Where the loops run after `n` ports: only the ports at even places have theirs, each on the pair of
lcores that follows those of the ports before it. -/
def Placed (eal : Eal) (n : Nat) (lcores : Lcores) : Prop :=
  ∀ l job, lcores l = some job ↔ ∃ k < n, k % 2 = 0 ∧
    (l = eal.lcore (k + 1) ∧ job = .runRecv k ∨ l = eal.lcore (k + 2) ∧ job = .runSend k)

namespace Placed

variable {eal : Eal} {n : Nat} {lcores : Lcores}

/-- An even number of ports leaves the pair that comes next waiting. -/
theorem idle {bound : Nat} (h : Placed eal n lcores) (henum : eal.Enumerates bound) {j : Nat}
    (hn : n < j) (heven : n % 2 = 0) (hj : j ≤ bound) : lcores (eal.lcore j) = none := by
  cases hjob : lcores (eal.lcore j) with
  | none => rfl
  | some job =>
      obtain ⟨k, hk, hkeven, ⟨hl, -⟩ | ⟨hl, -⟩⟩ := (h _ _).mp hjob
      · have hjk := henum.distinct j (k + 1) (by omega) hj (by omega) (by omega) hl
        omega
      · have hjk := henum.distinct j (k + 2) (by omega) hj (by omega) (by omega) hl
        omega

/-- The first port of a pair: both launches take effect. -/
theorem even {bound : Nat} (h : Placed eal n lcores) (henum : eal.Enumerates bound)
    (hbound : n + 2 ≤ bound) (heven : n % 2 = 0) :
    Placed eal (n + 1)
      (Function.update (Function.update lcores (eal.lcore (n + 1)) (some (.runRecv n)))
        (eal.lcore (n + 2)) (some (.runSend n))) := by
  have hrx : lcores (eal.lcore (n + 1)) = none := h.idle henum (by omega) heven (by omega)
  have htx : lcores (eal.lcore (n + 2)) = none := h.idle henum (by omega) heven hbound
  have hold : ∀ l job, lcores l = some job → l ≠ eal.lcore (n + 1) ∧ l ≠ eal.lcore (n + 2) := by
    intro l job hl
    constructor
    · rintro rfl
      rw [hrx] at hl
      cases hl
    · rintro rfl
      rw [htx] at hl
      cases hl
  intro l job
  constructor
  · intro hl
    by_cases hl2 : l = eal.lcore (n + 2)
    · rw [hl2, Function.update_self] at hl
      cases hl
      exact ⟨n, by omega, heven, .inr ⟨hl2, rfl⟩⟩
    rw [Function.update_of_ne hl2] at hl
    by_cases hl1 : l = eal.lcore (n + 1)
    · rw [hl1, Function.update_self] at hl
      cases hl
      exact ⟨n, by omega, heven, .inl ⟨hl1, rfl⟩⟩
    rw [Function.update_of_ne hl1] at hl
    obtain ⟨k, hk, hrest⟩ := (h l job).mp hl
    exact ⟨k, by omega, hrest⟩
  · rintro ⟨k, hk, hkeven, hcase⟩
    by_cases hkn : k = n
    · subst hkn
      obtain ⟨rfl, rfl⟩ | ⟨rfl, rfl⟩ := hcase
      · rw [Function.update_of_ne (henum.pair_ne hbound), Function.update_self]
      · rw [Function.update_self]
    · have hl := (h l job).mpr ⟨k, by omega, hkeven, hcase⟩
      obtain ⟨hl1, hl2⟩ := hold l job hl
      rw [Function.update_of_ne hl2, Function.update_of_ne hl1, hl]

/-- The second port of a pair changes nothing. -/
theorem odd (h : Placed eal n lcores) (hodd : n % 2 = 1) : Placed eal (n + 1) lcores := by
  intro l job
  rw [h l job]
  constructor
  · rintro ⟨k, hk, hrest⟩
    exact ⟨k, by omega, hrest⟩
  · rintro ⟨k, hk, hkeven, hcase⟩
    exact ⟨k, by omega, hkeven, hcase⟩

/-- The pair that the second port is given is busy. -/
theorem busy (h : Placed eal n lcores) (hodd : n % 2 = 1) :
    lcores (eal.lcore n) ≠ none ∧ lcores (eal.lcore (n + 1)) ≠ none := by
  have hpred : n - 1 + 1 = n := by omega
  have hpred2 : n - 1 + 2 = n + 1 := by omega
  have hrx := (h (eal.lcore n) (.runRecv (n - 1))).mpr
    ⟨n - 1, by omega, by omega, .inl ⟨by rw [hpred], rfl⟩⟩
  have htx := (h (eal.lcore (n + 1)) (.runSend (n - 1))).mpr
    ⟨n - 1, by omega, by omega, .inr ⟨by rw [hpred2], rfl⟩⟩
  rw [hrx, htx]
  exact ⟨Option.some_ne_none _, Option.some_ne_none _⟩

/-- The two launches for a port, on the pair that it is given. -/
theorem launched {bound : Nat} (h : Placed eal n lcores) (hlaunch : eal.LaunchesWhenIdle)
    (henum : eal.Enumerates bound) (hbound : n + 2 ≤ bound) :
    Placed eal (n + 1)
      (eal.remoteLaunch (eal.remoteLaunch lcores (.runRecv n) (eal.lcore (2 * (n / 2) + 1))).2
        (.runSend n) (eal.lcore (2 * (n / 2) + 2))).2 := by
  have hworker : ∀ j, 1 ≤ j → j ≤ n + 2 → eal.lcore j ∈ eal.workers := fun j hj hle =>
    henum.worker j hj (by omega)
  rcases Nat.mod_two_eq_zero_or_one n with heven | hodd
  · have hpair : 2 * (n / 2) = n := by omega
    have hne : eal.lcore (n + 2) ≠ eal.lcore (n + 1) := (henum.pair_ne hbound).symm
    have hrx : lcores (eal.lcore (n + 1)) = none := h.idle henum (by omega) heven (by omega)
    have htx : lcores (eal.lcore (n + 2)) = none := h.idle henum (by omega) heven hbound
    rw [hpair, hlaunch.idle _ _ _ (hworker _ (by omega) (by omega)) hrx, hlaunch.idle _ _ _
      (hworker _ (by omega) (by omega)) (by rw [Function.update_of_ne hne, htx])]
    exact h.even henum hbound heven
  · have hrx : 2 * (n / 2) + 1 = n := by omega
    have htx : 2 * (n / 2) + 2 = n + 1 := by omega
    obtain ⟨hbusy, hbusy'⟩ := h.busy hodd
    rw [hrx, htx, hlaunch.busy _ _ _ (hworker _ (by omega) (by omega)) hbusy, hlaunch.busy _ _ _
      (hworker _ (by omega) (by omega)) hbusy']
    exact h.odd hodd

end Placed

/-- Every loop that is to be launched on a pair of lcores has a worker there. -/
def PipelineParams.LaunchesOn (eal : Eal) (params : PipelineParams) (rxId txId : Nat) : Prop :=
  (params.launchRxLcore = true → rxId ∈ eal.workers) ∧
    (params.launchTxLcore = true → txId ∈ eal.workers)

/-- There are lcores for the loops of the first `n` ports, two ports in a row having the same pair. -/
def LcoresSuffice (eal : Eal) (params : PipelineParams) (n : Nat) : Prop :=
  ∀ k < n, params.LaunchesOn eal (eal.lcore (2 * (k / 2) + 1)) (eal.lcore (2 * (k / 2) + 2))

theorem Eal.Enumerates.suffices {eal : Eal} {n : Nat} (h : eal.Enumerates (2 * n))
    (params : PipelineParams) : LcoresSuffice eal params n := by
  intro k hk
  exact ⟨fun _ => h.worker _ (by omega) (by omega), fun _ => h.worker _ (by omega) (by omega)⟩

/-- The pair of lcores in use after `n` ports. -/
structure PortLoop.Paired (eal : Eal) (n : Nat) (s : PortLoop) : Prop where
  rxId : s.rxId = eal.lcore (2 * (n / 2) + 1)
  txId : s.txId = eal.lcore (2 * (n / 2) + 2)
  cnt : s.cnt = n % 2

/-- What holds in the loop when the enabled ports `done` are behind it. -/
structure PortLoop.Inv (eal : Eal) (done : List Nat) (s : PortLoop) : Prop where
  ports : s.objects.map DpdkNetif.portId = done.map UInt16.ofNat
  live : ∀ netif ∈ s.objects, netif.Live
  netifs : ∀ i k, s.netifs.lookup i = some k ↔ done[k]? = some i
  pair : s.Paired eal done.length
  lcores : Placed eal done.length s.lcores

namespace PortLoop

variable {eal : Eal} {cfg : DatapathConfig} {params : PipelineParams}

theorem Inv.objects_length {done : List Nat} {s : PortLoop} (h : Inv eal done s) :
    s.objects.length = done.length := by
  have hlen := congrArg List.length h.ports
  rwa [List.length_map, List.length_map] at hlen

theorem Inv.lookup_new {done : List Nat} {s : PortLoop} (h : Inv eal done s) {i : Nat}
    (hi : i ∉ done) : s.netifs.lookup i = none := by
  cases hk : s.netifs.lookup i with
  | none => rfl
  | some k => exact absurd (List.mem_of_getElem? ((h.netifs i k).mp hk)) hi

variable (eal) in
theorem startLoop_paired (hcfg : cfg.u = .pipeline params) (m : NetifManager) :
    (m.startLoop eal cfg).Paired eal 0 := by
  rw [NetifManager.startLoop, hcfg]
  exact ⟨rfl, rfl, rfl⟩

theorem startLoop_inv (hcfg : cfg.u = .pipeline params) :
    Inv eal [] (NetifManager.fresh.startLoop eal cfg) := by
  have hpair := startLoop_paired eal hcfg .fresh
  rw [NetifManager.startLoop, hcfg] at hpair ⊢
  refine ⟨rfl, fun netif hnetif => absurd hnetif List.not_mem_nil, fun i k => ?_, hpair,
    fun l job => ?_⟩
  · rw [List.getElem?_nil]
    constructor
    · intro hlookup
      cases hlookup
    · intro hnone
      cases hnone
  · constructor
    · intro hl
      cases hl
    · rintro ⟨k, hk, -⟩
      exact absurd hk (Nat.not_lt_zero k)

/-- What the launches for a port do, for the loops that are to be launched. -/
def launchPair (eal : Eal) (params : PipelineParams) (s : PortLoop) (ptr : Nat) : PortLoop :=
  let s := if params.launchRxLcore then s.remoteLaunch eal (.runRecv ptr) s.rxId else s
  if params.launchTxLcore then s.remoteLaunch eal (.runSend ptr) s.txId else s

/-- What the body of the loop does in pipeline mode. -/
theorem addPort_eq_some_iff (hcfg : cfg.u = .pipeline params) {s s' : PortLoop} {i : Nat}
    {netif : DpdkNetif} :
    s.addPort eal cfg i netif = some s' ↔
      params.LaunchesOn eal s.rxId s.txId ∧
        ((s.store i netif).launchPair eal params s.objects.length).advance eal = s' := by
  have hrxId : (s.store i netif).rxId = s.rxId := rfl
  have htxId : (s.store i netif).txId = s.txId := rfl
  have hlaunched : ∀ job id, ((s.store i netif).remoteLaunch eal job id).txId = s.txId :=
    fun job id => rfl
  rw [addPort, hcfg, PipelineParams.LaunchesOn, launchPair]
  cases hrx : params.launchRxLcore <;> cases htx : params.launchTxLcore <;>
    simp [hrx, htx, launch, hrxId, htxId, hlaunched, and_assoc, Option.bind_eq_some_iff]

theorem advance_toNetifManager (s : PortLoop) : (s.advance eal).toNetifManager = s.toNetifManager := by
  rw [advance]
  split <;> rfl

/-- The pair of lcores in use is the one of the port at the next place. -/
theorem Paired.advance {s : PortLoop} {n : Nat} (h : s.Paired eal n) :
    (s.advance eal).Paired eal (n + 1) := by
  obtain ⟨hrx, htx, hcnt⟩ := h
  rcases Nat.mod_two_eq_zero_or_one n with heven | hodd
  · have hsame : (n + 1) / 2 = n / 2 := by omega
    have hone : (n + 1) % 2 = 1 := by omega
    rw [PortLoop.advance, hcnt, heven, if_neg (by decide)]
    refine ⟨?_, ?_, hone.symm⟩
    · rw [hsame]
      exact hrx
    · rw [hsame]
      exact htx
  · have hnext : 2 * ((n + 1) / 2) = 2 * (n / 2) + 2 := by omega
    have hzero : (n + 1) % 2 = 0 := by omega
    rw [PortLoop.advance, hcnt, hodd, if_pos (by decide)]
    refine ⟨?_, ?_, hzero.symm⟩
    · show eal.nextLcore s.txId = _
      rw [hnext, htx, eal.lcore_succ]
    · show eal.nextLcore (eal.nextLcore s.txId) = _
      rw [hnext, htx, eal.lcore_succ, eal.lcore_succ]

variable (eal params) in
/-- The launches leave all but the lcores as it is. -/
theorem launchPair_frame (s : PortLoop) (ptr : Nat) :
    (s.launchPair eal params ptr).objects = s.objects ∧
      (s.launchPair eal params ptr).netifs = s.netifs ∧
      ∀ n, s.Paired eal n → (s.launchPair eal params ptr).Paired eal n := by
  rw [launchPair]
  cases params.launchRxLcore <;> cases params.launchTxLcore <;>
    exact ⟨rfl, rfl, fun n h => ⟨h.rxId, h.txId, h.cnt⟩⟩

/-- The pair of lcores does not depend on what is launched. -/
theorem Paired.addPort (hcfg : cfg.u = .pipeline params) {s s' : PortLoop} {n i : Nat}
    {netif : DpdkNetif} (h : s.Paired eal n) (hadd : s.addPort eal cfg i netif = some s') :
    s'.Paired eal (n + 1) := by
  obtain ⟨-, rfl⟩ := (addPort_eq_some_iff hcfg).mp hadd
  obtain ⟨-, -, hpair⟩ := launchPair_frame eal params (s.store i netif) s.objects.length
  exact (hpair n ⟨h.rxId, h.txId, h.cnt⟩).advance

/-- One enabled port. -/
theorem addPort_inv (hcfg : cfg.u = .pipeline params) (hrx : params.launchRxLcore = true)
    (htx : params.launchTxLcore = true) (hlaunch : eal.LaunchesWhenIdle) {bound : Nat}
    (henum : eal.Enumerates bound) {done : List Nat} {s s' : PortLoop} (h : Inv eal done s) {i : Nat}
    (hi : i ∉ done) (hbound : done.length + 2 ≤ bound) {netif : DpdkNetif}
    (hport : netif.portId = UInt16.ofNat i) (hlive : netif.Live)
    (hadd : s.addPort eal cfg i netif = some s') : Inv eal (done ++ [i]) s' := by
  have hlen : (done ++ [i]).length = done.length + 1 := List.length_append
  have hpair := h.pair.addPort hcfg hadd
  obtain ⟨-, rfl⟩ := (addPort_eq_some_iff hcfg).mp hadd
  obtain ⟨hobjects, hnetifs, -⟩ := launchPair_frame eal params (s.store i netif) s.objects.length
  refine ⟨?_, ?_, ?_, ?_, ?_⟩
  · rw [advance_toNetifManager, hobjects]
    show (s.objects ++ [netif]).map DpdkNetif.portId = _
    rw [List.map_append, List.map_append, h.ports, List.map_singleton, hport, List.map_singleton]
  · rw [advance_toNetifManager, hobjects]
    intro netif' hmem
    rcases List.mem_append.mp hmem with hold | hnew
    · exact h.live netif' hold
    · rw [List.mem_singleton.mp hnew]
      exact hlive
  · rw [advance_toNetifManager, hnetifs]
    intro j k
    show (insertNew s.netifs i s.objects.length).lookup j = some k ↔ _
    rw [lookup_insertNew (h.lookup_new hi), h.objects_length, getElem?_concat_iff, ← h.netifs]
    by_cases hj : j = i
    · rw [if_pos hj, hj, h.lookup_new hi]
      simp [eq_comm]
    · simp [hj]
  · rw [hlen]
    exact hpair
  · rw [advance_toNetifManager, hlen, launchPair, hrx, htx]
    show Placed eal _ (eal.remoteLaunch (eal.remoteLaunch s.lcores _ s.rxId).2 _ s.txId).2
    rw [h.objects_length, h.pair.rxId, h.pair.txId]
    exact h.lcores.launched hlaunch henum hbound

end PortLoop

/-! ## Whole runs of `init` -/

/-- Both rings of a port are created. -/
def RingsCreated (eal : Eal) (params : PipelineParams) (i : Nat) : Prop :=
  (eal.ringCreate (rxRingName i) params.ringCap.toNat Config.ioRingFlags).isSome ∧
    (eal.ringCreate (txRingName i) params.ringCap.toNat Config.ioRingFlags).isSome

instance (eal : Eal) (params : PipelineParams) (i : Nat) : Decidable (RingsCreated eal params i) :=
  inferInstanceAs (Decidable (_ ∧ _))

theorem toNat_ofNat_port {i : Nat} (hi : i < 32) : (UInt16.ofNat i).toNat = i :=
  UInt16.toNat_ofNat_of_lt (Nat.lt_trans hi (by decide))

theorem all_eq_iff_length {ports : List Nat} (hnodup : ports.Nodup) :
    (∀ i ∈ ports, ∀ j ∈ ports, i = j) ↔ ports.length ≤ 1 := by
  constructor
  · intro h
    by_contra hlong
    have h0 : 0 < ports.length := by omega
    have h1 : 1 < ports.length := by omega
    have hsame := h ports[0] (List.getElem_mem h0) ports[1] (List.getElem_mem h1)
    cases hnodup.getElem_inj_iff.mp hsame
  · intro hshort i hi j hj
    obtain ⟨k, hk, rfl⟩ := List.mem_iff_getElem.mp hi
    obtain ⟨l, hl, rfl⟩ := List.mem_iff_getElem.mp hj
    have hkl : k = l := by omega
    subst hkl
    rfl

theorem enabledPorts_nodup (portMask : UInt32) : (enabledPorts portMask).Nodup :=
  List.nodup_range.filter _

theorem lt_of_mem_enabledPorts {portMask : UInt32} {i : Nat} (h : i ∈ enabledPorts portMask) : i < 32 :=
  List.mem_range.mp (List.mem_filter.mp h).1

theorem place_unique {done : List Nat} (hnodup : done.Nodup) {k k' i : Nat} (hk : done[k]? = some i)
    (hk' : done[k']? = some i) : k' = k := by
  have hklt : k < done.length := (List.getElem?_eq_some_iff.mp hk).1
  exact ((List.getElem?_inj hklt hnodup).mp (hk.trans hk'.symm)).symm

section Ports

variable {eal : Eal} {done : List Nat} {s : PortLoop} (hinv : s.Inv eal done) (hnodup : done.Nodup)
include hinv hnodup

/-- Served or not, a port has exactly one netif. -/
theorem PortLoop.Inv.one_netif (hlt : ∀ i ∈ done, i < 32) {k i : Nat} (hk : done[k]? = some i) :
    ∃ netif, s.objects[k]? = some netif ∧ netif.portId = UInt16.ofNat i ∧ netif.Live ∧
      ∀ ptr' netif', s.objects[ptr']? = some netif' → netif'.portId = UInt16.ofNat i → ptr' = k := by
  have hports : ∀ ptr : Nat,
      (s.objects[ptr]?).map DpdkNetif.portId = (done[ptr]?).map UInt16.ofNat := by
    intro ptr
    rw [← List.getElem?_map, hinv.ports, List.getElem?_map]
  have hobject := hports k
  rw [hk] at hobject
  obtain ⟨netif, hnetif, hport⟩ := Option.map_eq_some_iff.mp hobject
  refine ⟨netif, hnetif, hport, hinv.live netif (List.mem_of_getElem? hnetif), ?_⟩
  intro ptr' netif' hnetif' hport'
  have hobject' := hports ptr'
  rw [hnetif'] at hobject'
  obtain ⟨i', hi', hport''⟩ := Option.map_eq_some_iff.mp hobject'.symm
  -- below 32 the cast to `uint16_t` loses nothing
  have hid : (UInt16.ofNat i').toNat = (UInt16.ofNat i).toNat := by rw [hport'', hport']
  rw [toNat_ofNat_port (hlt i' (List.mem_of_getElem? hi')),
    toNat_ofNat_port (hlt i (List.mem_of_getElem? hk))] at hid
  exact place_unique hnodup hk (hid ▸ hi')

/-- A port is served if and only if it is the first of its pair. -/
theorem PortLoop.Inv.served_iff (hlt : ∀ i ∈ done, i < 32) {bound : Nat}
    (henum : eal.Enumerates bound) (hbound : done.length + 1 ≤ bound) {k i : Nat}
    (hk : done[k]? = some i) : NetifManager.Served eal s.toNetifManager i ↔ k % 2 = 0 := by
  have hklt : k < done.length := (List.getElem?_eq_some_iff.mp hk).1
  constructor
  · rintro ⟨ptr, netif, hget, -, -, -, -, rx, -, tx, -, -, hrx, -⟩
    obtain rfl : ptr = k := place_unique hnodup hk ((hinv.netifs i ptr).mp hget)
    obtain ⟨k', -, heven, ⟨-, hjob⟩ | ⟨-, hjob⟩⟩ := (hinv.lcores rx _).mp hrx
    · cases hjob
      exact heven
    · cases hjob
  · intro heven
    obtain ⟨netif, hnetif, hport, hlive, hone⟩ := hinv.one_netif hnodup hlt hk
    have hrx : s.lcores (eal.lcore (k + 1)) = some (.runRecv k) :=
      (hinv.lcores _ _).mpr ⟨k, hklt, heven, .inl ⟨rfl, rfl⟩⟩
    have htx : s.lcores (eal.lcore (k + 2)) = some (.runSend k) :=
      (hinv.lcores _ _).mpr ⟨k, hklt, heven, .inr ⟨rfl, rfl⟩⟩
    exact ⟨k, netif, (hinv.netifs i k).mpr hk, hnetif, hport, hlive, hone,
      _, henum.worker (k + 1) (by omega) (by omega), _, henum.worker (k + 2) (by omega) (by omega),
      henum.pair_ne (by omega), hrx, htx⟩

end Ports

section Init

variable {eal : Eal} {cfg : DatapathConfig} {params : PipelineParams}

theorem DpdkNetif.init_live (hcfg : cfg.u = .pipeline params) {port : UInt16} {netif netif' : DpdkNetif}
    (h : init eal port cfg netif = some netif') : netif'.portId = port ∧ netif'.Live := by
  simp only [init, hcfg, Option.bind_eq_bind, Option.bind_eq_some_iff, Option.pure_def] at h
  obtain ⟨rxRing, -, txRing, -, h⟩ := h
  cases h
  exact ⟨rfl, _, rfl, rfl⟩

theorem DpdkNetif.init_isSome (hcfg : cfg.u = .pipeline params) {i : Nat} (hi : i < 32)
    (netif : DpdkNetif) :
    (init eal (UInt16.ofNat i) cfg netif).isSome ↔ RingsCreated eal params i := by
  simp only [init, hcfg, toNat_ofNat_port hi, RingsCreated]
  cases eal.ringCreate (rxRingName i) params.ringCap.toNat Config.ioRingFlags with
  | none => simp
  | some rxRing =>
      cases eal.ringCreate (txRingName i) params.ringCap.toNat Config.ioRingFlags with
      | none => simp
      | some txRing => simp

/-- The loop goes past an enabled port if and only if its rings are created and there are lcores for its
loops. -/
theorem PortLoop.initPort_isSome (hcfg : cfg.u = .pipeline params) {i n : Nat} (hi : i < 32)
    (hon : portEnabled cfg.portMask i = true) {s : PortLoop} (hpair : s.Paired eal n) :
    (s.initPort eal cfg i).isSome ↔
      RingsCreated eal params i ∧
        params.LaunchesOn eal (eal.lcore (2 * (n / 2) + 1)) (eal.lcore (2 * (n / 2) + 2)) := by
  rw [initPort, if_pos hon, ← DpdkNetif.init_isSome hcfg hi {}, ← hpair.rxId, ← hpair.txId]
  cases DpdkNetif.init eal (UInt16.ofNat i) cfg {} with
  | none => simp
  | some netif =>
      rw [Option.bind_some, Option.isSome_iff_exists]
      simp [addPort_eq_some_iff hcfg]

/-- The loop returns if and only if the rings of all its ports are created and there are lcores for all
their loops. -/
theorem PortLoop.foldlM_isSome (hcfg : cfg.u = .pipeline params) {ports : List Nat}
    (hports : ∀ i ∈ ports, i < 32) {n : Nat} {s : PortLoop} (hpair : s.Paired eal n) :
    (ports.foldlM (initPort eal cfg) s).isSome ↔
      (∀ i ∈ ports.filter (portEnabled cfg.portMask), RingsCreated eal params i) ∧
        ∀ k < (ports.filter (portEnabled cfg.portMask)).length,
          params.LaunchesOn eal (eal.lcore (2 * ((n + k) / 2) + 1))
            (eal.lcore (2 * ((n + k) / 2) + 2)) := by
  induction ports generalizing n s with
  | nil => simp
  | cons i ports ih =>
      have hrest : ∀ j ∈ ports, j < 32 := fun j hj => hports j (List.mem_cons_of_mem _ hj)
      rw [List.foldlM_cons]
      by_cases hon : portEnabled cfg.portMask i = true
      · have hport := initPort_isSome hcfg (hports i List.mem_cons_self) hon hpair
        rw [List.filter_cons_of_pos hon, List.forall_mem_cons, List.length_cons,
          Nat.forall_lt_succ_left]
        cases hs : s.initPort eal cfg i with
        | none =>
            rw [hs] at hport
            have hnot : ¬(RingsCreated eal params i ∧ _) := fun h => Bool.noConfusion (hport.mpr h)
            refine iff_of_false Bool.false_ne_true ?_
            rintro ⟨⟨hrings, -⟩, hlcores, -⟩
            exact hnot ⟨hrings, hlcores⟩
        | some s' =>
            rw [hs] at hport
            obtain ⟨hrings, hlcores⟩ := hport.mp rfl
            rw [initPort, if_pos hon] at hs
            obtain ⟨netif, -, hadd⟩ := Option.bind_eq_some_iff.mp hs
            have hnext := ih hrest (hpair.addPort hcfg hadd)
            simp only [Nat.add_right_comm n 1] at hnext
            show (ports.foldlM (initPort eal cfg) s').isSome = true ↔ _
            rw [hnext]
            constructor
            · rintro ⟨hringsRest, hlcoresRest⟩
              exact ⟨⟨hrings, hringsRest⟩, hlcores, hlcoresRest⟩
            · rintro ⟨⟨-, hringsRest⟩, -, hlcoresRest⟩
              exact ⟨hringsRest, hlcoresRest⟩
      · rw [List.filter_cons_of_neg hon, initPort, if_neg hon]
        exact ih hrest hpair

variable (hcfg : cfg.u = .pipeline params) (hrx : params.launchRxLcore = true)
  (htx : params.launchTxLcore = true) (hlaunch : eal.LaunchesWhenIdle)

include hcfg hrx htx hlaunch

/-- The loop keeps its invariant. -/
theorem PortLoop.foldlM_inv {n : Nat} (henum : eal.Enumerates (2 * n)) {ports done : List Nat}
    (hnodup : (done ++ ports.filter (portEnabled cfg.portMask)).Nodup)
    (hlen : (done ++ ports.filter (portEnabled cfg.portMask)).length ≤ n) {s s' : PortLoop}
    (hinv : Inv eal done s) (h : ports.foldlM (initPort eal cfg) s = some s') :
    Inv eal (done ++ ports.filter (portEnabled cfg.portMask)) s' := by
  induction ports generalizing done s with
  | nil =>
      cases h
      rw [List.filter_nil, List.append_nil]
      exact hinv
  | cons i ports ih =>
      rw [List.foldlM_cons, initPort] at h
      by_cases hon : portEnabled cfg.portMask i = true
      · rw [List.filter_cons_of_pos hon, List.append_cons] at hnodup hlen ⊢
        rw [if_pos hon] at h
        obtain ⟨s₁, hs₁, h⟩ := Option.bind_eq_some_iff.mp h
        obtain ⟨netif, hnetif, hadd⟩ := Option.bind_eq_some_iff.mp hs₁
        obtain ⟨hport, hlive⟩ := DpdkNetif.init_live hcfg hnetif
        have hi : i ∉ done := by
          intro hmem
          exact (List.nodup_append.mp (List.nodup_append.mp hnodup).1).2.2 i hmem i
            List.mem_cons_self rfl
        have hbound : done.length + 2 ≤ 2 * n := by
          rw [List.length_append, List.length_append, List.length_singleton] at hlen
          omega
        exact ih hnodup hlen
          (addPort_inv hcfg hrx htx hlaunch henum hinv hi hbound hport hlive hadd) h
      · rw [List.filter_cons_of_neg hon] at hnodup hlen ⊢
        rw [if_neg hon] at h
        exact ih hnodup hlen hinv h

theorem NetifManager.init_inv (henum : eal.Enumerates (2 * (enabledPorts cfg.portMask).length))
    {m : NetifManager} (h : init eal cfg fresh = some m) :
    ∃ s : PortLoop, s.toNetifManager = m ∧ s.Inv eal (enabledPorts cfg.portMask) := by
  rw [init, rtcRefused, hcfg] at h
  obtain ⟨s, hs, rfl⟩ := Option.map_eq_some_iff.mp h
  have hinv := PortLoop.foldlM_inv hcfg hrx htx hlaunch henum
    (by rw [List.nil_append]; exact enabledPorts_nodup _) (by rw [List.nil_append, enabledPorts])
    (PortLoop.startLoop_inv hcfg) hs
  rw [List.nil_append] at hinv
  exact ⟨s, rfl, hinv⟩

/-- The `k`-th enabled port is served if and only if `k` is even. -/
theorem NetifManager.served_iff (henum : eal.Enumerates (2 * (enabledPorts cfg.portMask).length))
    {m : NetifManager} (h : init eal cfg fresh = some m) {k i : Nat}
    (hk : (enabledPorts cfg.portMask)[k]? = some i) : Served eal m i ↔ k % 2 = 0 := by
  obtain ⟨s, rfl, hinv⟩ := init_inv hcfg hrx htx hlaunch henum h
  have hpos : 0 < (enabledPorts cfg.portMask).length :=
    Nat.zero_lt_of_lt (List.getElem?_eq_some_iff.mp hk).1
  exact hinv.served_iff (enabledPorts_nodup _) (fun i hi => lt_of_mem_enabledPorts hi) henum
    (by omega) hk

omit hrx htx hlaunch in
/-- `init` returns if and only if no `make_ring` exits and no launch is out of bounds. -/
theorem NetifManager.init_isSome_iff : (init eal cfg fresh).isSome ↔
    (∀ i ∈ enabledPorts cfg.portMask, RingsCreated eal params i) ∧
      LcoresSuffice eal params (enabledPorts cfg.portMask).length := by
  rw [init, rtcRefused, hcfg, if_neg Bool.false_ne_true, Option.isSome_map]
  have hloop := PortLoop.foldlM_isSome hcfg (fun i (hi : i ∈ List.range 32) => List.mem_range.mp hi)
    (PortLoop.startLoop_paired eal hcfg .fresh)
  rw [hloop, enabledPorts, LcoresSuffice]
  simp only [Nat.zero_add]

/-- With lcores enough for all, every enabled port is served if and only if there is at most one. -/
theorem NetifManager.init_serves_iff
    (henum : eal.Enumerates (2 * (enabledPorts cfg.portMask).length)) :
    (∀ m, init eal cfg fresh = some m →
      ((∀ i ∈ enabledPorts cfg.portMask, Served eal m i) ↔
        ∀ i ∈ enabledPorts cfg.portMask, ∀ j ∈ enabledPorts cfg.portMask, i = j)) ∧
      ((init eal cfg fresh).isSome ↔ ∀ i ∈ enabledPorts cfg.portMask, RingsCreated eal params i) := by
  constructor
  · intro m hm
    rw [all_eq_iff_length (enabledPorts_nodup _)]
    constructor
    · intro hall
      by_contra hlong
      have hlt : 1 < (enabledPorts cfg.portMask).length := Nat.lt_of_not_le hlong
      -- the port in second place is not served
      have hodd := (served_iff hcfg hrx htx hlaunch henum hm (List.getElem?_eq_getElem hlt)).mp
        (hall _ (List.getElem_mem hlt))
      cases hodd
    · intro hshort i hi
      obtain ⟨k, hk⟩ := List.mem_iff_getElem?.mp hi
      have hklt : k < (enabledPorts cfg.portMask).length := (List.getElem?_eq_some_iff.mp hk).1
      have heven : k % 2 = 0 := by omega
      exact (served_iff hcfg hrx htx hlaunch henum hm hk).mpr heven
  · rw [init_isSome_iff hcfg]
    exact and_iff_left (henum.suffices params)

end Init

/-- EAL on lcores 0 to 8, the first of which is the main one. -/
def labEal : Eal where
  lcoreId := 0
  workers := [1, 2, 3, 4, 5, 6, 7, 8]
  -- `RTE_MAX_LCORE` behind the last
  nextLcore := fun i => if i < 8 then i + 1 else 128
  -- a ring has a power of two of slots, one of which stays empty
  ringCreate := fun _ count _ => if count = 2 ^ count.log2 then some (.new (count - 1)) else none
  remoteLaunch := fun lcores job l =>
    if (lcores l).isNone then (0, Function.update lcores l (some job)) else (-16, lcores)

theorem labEal_launchesWhenIdle : labEal.LaunchesWhenIdle where
  idle := by
    intro lcores job l _ hidle
    simp [labEal, hidle]
  busy := by
    intro lcores job l _ hbusy
    simp [labEal, hbusy]

theorem labEal_enumerates : labEal.Enumerates 4 where
  worker := by
    intro k hk hk4
    interval_cases k <;> decide
  distinct := by
    intro j k hj hj4 hk hk4
    interval_cases j <;> interval_cases k <;> decide

/-- The defaults enable one port. -/
theorem NetifManager.init_serves_defaults :
    ∃ m, init labEal datapathConfigDefaults fresh = some m ∧
      ∀ i ∈ enabledPorts datapathConfigDefaults.portMask, Served labEal m i := by
  obtain ⟨hserved, hreturns⟩ := @init_serves_iff labEal datapathConfigDefaults _ rfl rfl rfl
    labEal_launchesWhenIdle (labEal_enumerates.mono (by decide))
  obtain ⟨m, hm⟩ := Option.isSome_iff_exists.mp (hreturns.mpr (by decide))
  exact ⟨m, hm, (hserved m hm).mpr (by decide)⟩

/-- Ports 0 and 1 are enabled. -/
def twoPorts : DatapathConfig := { datapathConfigDefaults with portMask := 3 }

/-- Nothing receives or sends for port 1. -/
theorem NetifManager.not_served_second :
    labEal.LaunchesWhenIdle ∧ labEal.Enumerates (2 * (enabledPorts twoPorts.portMask).length) ∧
      ∃ m, init labEal twoPorts fresh = some m ∧ 1 ∈ enabledPorts twoPorts.portMask ∧
        ¬Served labEal m 1 := by
  have henum : labEal.Enumerates (2 * (enabledPorts twoPorts.portMask).length) := labEal_enumerates
  have hreturns : (init labEal twoPorts fresh).isSome :=
    (init_isSome_iff rfl).mpr ⟨by decide, henum.suffices _⟩
  obtain ⟨m, hm⟩ := Option.isSome_iff_exists.mp hreturns
  refine ⟨labEal_launchesWhenIdle, henum, m, hm, by decide, ?_⟩
  intro hserved
  have heven := (served_iff rfl rfl rfl labEal_launchesWhenIdle henum hm (k := 1) (by decide)).mp hserved
  cases heven

end VioletGateway
