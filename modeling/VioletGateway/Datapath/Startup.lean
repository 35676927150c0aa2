import VioletGateway.Datapath.FlagValues
import VioletGateway.Datapath.LcorePairs
import VioletGateway.Gateway.Services

/-!
# Start-up

Model of `dpdk::init` and of `VioletGW::init`, from the flags to the gateway that `run` works on. The
process ends at the first thing that goes wrong. `startUp_spec` says when it does not, and what there is
then: a netif for the worker's port, and a gateway with the MAC address of that port. Lcores that are
missing go wrong too, although the source does not look: it launches on them all the same.

The worker's port need not be a device. Netifs are made for the bits of the mask, and a port that is
enabled and absent passes all the checks; its MAC address is zero then.
-/

set_option autoImplicit false

namespace VioletGateway

/-! ## DPDK -/

/-- What DPDK finds and does. `setUp` are the calls of `port_init` for one port: the MAC address of the
port, or nothing if one of the calls fails. `linkUp` is the answer of `rte_eth_link_get` for an attempt
and a port. -/
structure Dpdk where
  ealInit : Int
  poolCreated : Bool
  devices : List Nat
  /-- `RTE_MAX_ETHPORTS` -/
  devices_lt : ∀ i ∈ devices, i < 32
  setUp : Nat → Option EtherAddr
  linkUp : Nat → Nat → Bool

/-- Why the process ends before `run`. -/
inductive Stop
  | badFlag (e : FlagError)
  | ealInit
  | mempool
  | noDevice
  | portSetUp (port : Nat)
  | noLink
  | rtcWorkers
  /-- a ring that is not created, or a launch out of bounds, where nothing is known of what follows -/
  | netif
  /-- `init` returns 1 -/
  | noNetif
  /-- `init_services` returns 1 -/
  | controlShm

namespace Dpdk

/-- `DPDK_ether_addr`. -/
abbrev EtherAddrs := Nat → EtherAddr

/-- The body of the loop in `port_init`. -/
def initDevice (d : Dpdk) (portMask : UInt32) (addrs : EtherAddrs) (i : Nat) :
    Except Stop EtherAddrs :=
  if portEnabled portMask i = false then .ok addrs
  else
    match d.setUp i with
    | some mac => .ok (Function.update addrs i mac)
    | none => .error (.portSetUp i)

/-- `port_init`. -/
def portInit (d : Dpdk) (portMask : UInt32) : Except Stop EtherAddrs :=
  if d.devices = [] then .error .noDevice
  else d.devices.foldlM (d.initDevice portMask) fun _ => zeroMac

/-- `check_link_status`. -/
def checkLinkStatus (d : Dpdk) (portMask : UInt32) (attempt : Nat) : Bool :=
  d.devices.any fun i => portEnabled portMask i && d.linkUp attempt i

/-- `kLinkCheckAttempts`. -/
def linkCheckAttempts : Nat := 4

/-- The loop over the attempts that are left. -/
def linkOk (d : Dpdk) (portMask : UInt32) : Nat → Bool
  | 0 => false
  | left + 1 =>
    d.checkLinkStatus portMask (linkCheckAttempts - left) || linkOk d portMask left

/-- `dpdk::init`. -/
def init (d : Dpdk) (portMask : UInt32) : Except Stop EtherAddrs :=
  if d.ealInit < 0 then .error .ealInit
  else if d.poolCreated = false then .error .mempool
  else
    let effectivePortMask := if portMask ≠ 0 then portMask else datapathConfigDefaults.portMask
    match d.portInit effectivePortMask with
    | .error stop => .error stop
    | .ok addrs => if d.linkOk effectivePortMask linkCheckAttempts then .ok addrs else .error .noLink

end Dpdk

/-! ## The gateway -/

/-- What `run` works on. -/
structure Started where
  manager : NetifManager
  /-- the address of the worker's netif -/
  netif : Nat
  gw : VioletGW

section StartUp

variable (eal : Eal) (d : Dpdk) (scfg : ServiceConfig)

/-- The end of `VioletGW::init`, when the netifs are there. `shm` is absent if the control segment cannot
be opened. -/
def startServices (shm : Option (Option CpUpdate)) (addrs : Dpdk.EtherAddrs) (workerPort : UInt16)
    (manager : NetifManager) : Except Stop Started :=
  match manager.getNetif workerPort.toNat with
  | none => .error .noNetif
  | some netif =>
    match shm with
    | none => .error .controlShm
    | some update =>
      let port := ((manager.objects[netif]?).getD {}).portId
      let nicMac := if port < 32 then some (addrs port.toNat) else none
      .ok ⟨manager, netif, .init scfg update nicMac⟩

/-- `VioletGW::init`. -/
def startUp (shm : Option (Option CpUpdate)) (f : DatapathFlags) : Except Stop Started :=
  match datapathConfigFromFlags f with
  | .error e => .error (.badFlag e)
  | .ok cfg =>
    match d.init cfg.portMask with
    | .error stop => .error stop
    | .ok addrs =>
      match NetifManager.init eal cfg.toDatapathConfig .fresh with
      | none => .error (if NetifManager.rtcRefused cfg.toDatapathConfig then .rtcWorkers else .netif)
      | some manager => startServices scfg shm addrs cfg.workerPort manager

end StartUp

/-! ## Devices and links -/

namespace Dpdk

variable {d : Dpdk} {portMask : UInt32}

/-- The loop over the devices returns if and only if every enabled device is set up, and then the table
holds their addresses. -/
theorem foldlM_initDevice (devices : List Nat) (addrs : EtherAddrs) :
    ((∃ addrs', devices.foldlM (d.initDevice portMask) addrs = .ok addrs') ↔
        ∀ i ∈ devices, portEnabled portMask i = true → (d.setUp i).isSome) ∧
      ∀ addrs', devices.foldlM (d.initDevice portMask) addrs = .ok addrs' →
        ∀ i, addrs' i =
          if i ∈ devices ∧ portEnabled portMask i = true then (d.setUp i).getD (addrs i)
          else addrs i := by
  induction devices generalizing addrs with
  | nil =>
      refine ⟨⟨fun _ i hi => absurd hi List.not_mem_nil, fun _ => ⟨addrs, rfl⟩⟩, ?_⟩
      intro addrs' h i
      cases h
      simp
  | cons j devices ih =>
      rw [List.foldlM_cons, initDevice]
      by_cases hoff : portEnabled portMask j = false
      · obtain ⟨hiff, haddrs⟩ := ih addrs
        rw [if_pos hoff]
        refine ⟨hiff.trans ?_, fun addrs' h i => ?_⟩
        · simp [hoff]
        · rw [haddrs addrs' h i]
          by_cases hij : i = j
          · subst hij
            simp [hoff]
          · simp [hij]
      · have hon : portEnabled portMask j = true := eq_true_of_ne_false hoff
        rw [if_neg hoff]
        cases hmac : d.setUp j with
        | none =>
            refine ⟨⟨?_, fun h => ?_⟩, ?_⟩
            · rintro ⟨addrs', h⟩
              cases h
            · have hj := h j List.mem_cons_self hon
              rw [hmac] at hj
              cases hj
            · intro addrs' h
              cases h
        | some mac =>
            obtain ⟨hiff, haddrs⟩ := ih (Function.update addrs j mac)
            refine ⟨hiff.trans ?_, fun addrs' h i => ?_⟩
            · simp [hmac]
            · rw [haddrs addrs' h i]
              by_cases hij : i = j
              · subst hij
                simp [hon, hmac]
              · simp [hij]

/-- Some attempt finds an enabled device whose link is up. -/
theorem linkOk_iff (left : Nat) (hleft : left ≤ linkCheckAttempts) :
    d.linkOk portMask left = true ↔
      ∃ attempt, linkCheckAttempts - left < attempt ∧ attempt ≤ linkCheckAttempts ∧
        ∃ i ∈ d.devices, portEnabled portMask i = true ∧ d.linkUp attempt i = true := by
  induction left with
  | zero =>
      refine ⟨fun h => Bool.noConfusion h, ?_⟩
      rintro ⟨attempt, hlt, hle, -⟩
      omega
  | succ left ih =>
      rw [linkOk, Bool.or_eq_true, ih (by omega), checkLinkStatus, List.any_eq_true]
      simp only [Bool.and_eq_true]
      constructor
      · rintro (hnow | ⟨attempt, hlt, hle, hup⟩)
        · exact ⟨linkCheckAttempts - left, by omega, by omega, hnow⟩
        · exact ⟨attempt, by omega, hle, hup⟩
      · rintro ⟨attempt, hlt, hle, hup⟩
        by_cases hfirst : attempt = linkCheckAttempts - left
        · subst hfirst
          exact .inl hup
        · exact .inr ⟨attempt, by omega, hle, hup⟩

theorem portInit_ok_iff {addrs : EtherAddrs} :
    d.portInit portMask = .ok addrs ↔
      d.devices ≠ [] ∧ d.devices.foldlM (d.initDevice portMask) (fun _ => zeroMac) = .ok addrs := by
  rw [portInit]
  split_ifs with hnone
  · simp [hnone]
  · simp [hnone]

theorem init_ok_iff (hmask : portMask ≠ 0) {addrs : EtherAddrs} :
    d.init portMask = .ok addrs ↔
      0 ≤ d.ealInit ∧ d.poolCreated = true ∧ d.portInit portMask = .ok addrs ∧
        d.linkOk portMask linkCheckAttempts = true := by
  rw [init, if_pos hmask]
  by_cases heal : d.ealInit < 0
  · have hnot : ¬0 ≤ d.ealInit := Int.not_le.mpr heal
    simp [heal, hnot]
  · have hok : 0 ≤ d.ealInit := Int.not_lt.mp heal
    by_cases hpool : d.poolCreated = false
    · rw [if_neg heal, if_pos hpool, hpool]
      simp
    · have hcreated : d.poolCreated = true := eq_true_of_ne_false hpool
      rw [if_neg heal, if_neg hpool]
      dsimp only
      cases d.portInit portMask with
      | error stop => simp
      | ok addrs' =>
          by_cases hlink : d.linkOk portMask linkCheckAttempts = true
          · simp [hok, hcreated, hlink]
          · simp [hlink]

end Dpdk

/-! ## Netifs -/

/-- The netifs made so far are those of the ports `done`, in this order. -/
structure PortLoop.Registered (done : List Nat) (s : PortLoop) : Prop where
  ports : s.objects.map DpdkNetif.portId = done.map UInt16.ofNat
  netifs : ∀ i k, s.netifs.lookup i = some k ↔ done[k]? = some i

section Registered

variable {eal : Eal} {cfg : DatapathConfig} {s s' : PortLoop} {done : List Nat} {i : Nat}

/-- In both modes, the body of the loop adds one netif. -/
theorem PortLoop.addPort_store {netif : DpdkNetif} (hadd : s.addPort eal cfg i netif = some s') :
    s'.objects = (s.store i netif).objects ∧ s'.netifs = (s.store i netif).netifs := by
  cases hcfg : cfg.u with
  | rtc params =>
      rw [addPort, hcfg] at hadd
      obtain rfl := Option.some.inj hadd
      exact ⟨rfl, rfl⟩
  | pipeline params =>
      obtain ⟨-, rfl⟩ := (addPort_eq_some_iff hcfg).mp hadd
      obtain ⟨hobjects, hnetifs, -⟩ := launchPair_frame eal params (s.store i netif)
        s.objects.length
      rw [advance_toNetifManager]
      exact ⟨hobjects, hnetifs⟩

theorem PortLoop.Registered.addPort (h : s.Registered done) (hi : i ∉ done) {netif : DpdkNetif}
    (hport : netif.portId = UInt16.ofNat i) (hadd : s.addPort eal cfg i netif = some s') :
    s'.Registered (done ++ [i]) := by
  obtain ⟨hobjects, hnetifs⟩ := PortLoop.addPort_store hadd
  have hlen : s.objects.length = done.length := by
    have hmaps := congrArg List.length h.ports
    rwa [List.length_map, List.length_map] at hmaps
  constructor
  · rw [hobjects, store, List.map_append, List.map_append, h.ports, List.map_singleton, hport]
    rfl
  · intro j k
    have hnew : s.netifs.lookup i = none := by
      cases hk : s.netifs.lookup i with
      | none => rfl
      | some k => exact absurd (List.mem_of_getElem? ((h.netifs i k).mp hk)) hi
    rw [hnetifs, store, lookup_insertNew hnew, getElem?_concat_iff, ← h.netifs, hlen]
    split_ifs with hj
    · subst hj
      simp [hnew, eq_comm]
    · simp [hj]

/-- A netif is made for its port. -/
theorem DpdkNetif.portId_of_init {port : UInt16} {netif netif' : DpdkNetif}
    (h : init eal port cfg netif = some netif') : netif'.portId = port := by
  rw [init] at h
  cases hu : cfg.u with
  | rtc params =>
      rw [hu] at h
      obtain rfl := Option.some.inj h
      rfl
  | pipeline params =>
      rw [hu] at h
      simp only [Option.bind_eq_bind, Option.bind_eq_some_iff, Option.pure_def] at h
      obtain ⟨rxRing, -, txRing, -, h⟩ := h
      cases h
      rfl

/-- The loop makes a netif for each enabled port. -/
theorem PortLoop.foldlM_registered {ports : List Nat}
    (hnodup : (done ++ ports.filter (portEnabled cfg.portMask)).Nodup) (h : s.Registered done)
    (hrun : ports.foldlM (initPort eal cfg) s = some s') :
    s'.Registered (done ++ ports.filter (portEnabled cfg.portMask)) := by
  induction ports generalizing done s with
  | nil =>
      cases hrun
      rw [List.filter_nil, List.append_nil]
      exact h
  | cons i ports ih =>
      rw [List.foldlM_cons, initPort] at hrun
      by_cases hon : portEnabled cfg.portMask i = true
      · rw [List.filter_cons_of_pos hon, List.append_cons] at hnodup ⊢
        rw [if_pos hon] at hrun
        obtain ⟨s₁, hs₁, hrun⟩ := Option.bind_eq_some_iff.mp hrun
        obtain ⟨netif, hnetif, hadd⟩ := Option.bind_eq_some_iff.mp hs₁
        have hi : i ∉ done := by
          intro hmem
          exact (List.nodup_append.mp (List.nodup_append.mp hnodup).1).2.2 i hmem i
            List.mem_cons_self rfl
        exact ih hnodup (h.addPort hi (DpdkNetif.portId_of_init hnetif) hadd) hrun
      · rw [List.filter_cons_of_neg hon] at hnodup ⊢
        rw [if_neg hon] at hrun
        exact ih hnodup h hrun

/-- After `DpdkNetifManager::init`, the netifs are those of the enabled ports. -/
theorem NetifManager.init_registered {m : NetifManager} (h : init eal cfg fresh = some m) :
    ∃ s : PortLoop, s.toNetifManager = m ∧ s.Registered (enabledPorts cfg.portMask) := by
  rw [init] at h
  split_ifs at h with hrefused
  obtain ⟨s, hs, rfl⟩ := Option.map_eq_some_iff.mp h
  have hstart : (fresh.startLoop eal cfg).Registered [] := by
    rw [startLoop]
    cases cfg.u <;>
      exact ⟨rfl, fun i k => by simp [fresh]⟩
  have hnodup := enabledPorts_nodup cfg.portMask
  rw [enabledPorts, ← List.nil_append (List.filter _ _)] at hnodup
  have hdone := PortLoop.foldlM_registered hnodup hstart hs
  rw [List.nil_append] at hdone
  exact ⟨s, rfl, hdone⟩

/-- A port has a netif if and only if it is enabled, and the netif is made for it. -/
theorem NetifManager.getNetif_of_init {m : NetifManager} (h : init eal cfg fresh = some m)
    (port : Nat) :
    ((m.getNetif port).isSome ↔ port ∈ enabledPorts cfg.portMask) ∧
      ∀ k, m.getNetif port = some k →
        ∃ netif, m.objects[k]? = some netif ∧ netif.portId = UInt16.ofNat port := by
  obtain ⟨s, rfl, hs⟩ := init_registered h
  constructor
  · rw [List.mem_iff_getElem?, Option.isSome_iff_exists]
    exact exists_congr fun k => hs.netifs port k
  · intro k hk
    have hport := (hs.netifs port k).mp hk
    have hmaps := congrArg (·[k]?) hs.ports
    simp only [List.getElem?_map, hport, Option.map_some, Option.map_eq_some_iff] at hmaps
    exact hmaps

end Registered

/-- What the two modes need beside the devices: the rings of every enabled port and worker lcores for
the loops that are launched, or not more than one worker. -/
def DatapathConfig.Available (eal : Eal) (cfg : DatapathConfig) : Prop :=
  match cfg.u with
  | .pipeline params =>
      (∀ i ∈ enabledPorts cfg.portMask, RingsCreated eal params i) ∧
        LcoresSuffice eal params (enabledPorts cfg.portMask).length
  | .rtc params => params.workers ≤ 1

section Available

variable {eal : Eal} {cfg : DatapathConfig}

/-- In RTC mode nothing can go wrong with a netif. -/
theorem PortLoop.foldlM_rtc {params : RtcParams} (hcfg : cfg.u = .rtc params) (ports : List Nat)
    (s : PortLoop) : (ports.foldlM (initPort eal cfg) s).isSome := by
  induction ports generalizing s with
  | nil => rfl
  | cons i ports ih =>
      have hport : ∃ s', s.initPort eal cfg i = some s' := by
        rw [initPort]
        split_ifs
        · simp [DpdkNetif.init, addPort, hcfg]
        · exact ⟨s, rfl⟩
      obtain ⟨s', hs'⟩ := hport
      rw [List.foldlM_cons, hs']
      exact ih s'

theorem rtcRefused_iff {params : RtcParams} (hcfg : cfg.u = .rtc params) :
    NetifManager.rtcRefused cfg = true ↔ ¬params.workers ≤ 1 := by
  rw [NetifManager.rtcRefused, hcfg]
  dsimp only
  rw [decide_eq_true_eq, resolveRtcPath]
  by_cases hone : params.workers ≤ 1
  · simp [hone]
  · rw [if_neg hone]
    simp only [hone, not_false_eq_true, iff_true, Bool.false_eq_true, if_false]
    split_ifs <;> decide

/-- When `DpdkNetifManager::init` returns. -/
theorem NetifManager.init_isSome_iff_available :
    (init eal cfg fresh).isSome ↔ cfg.Available eal := by
  rw [DatapathConfig.Available]
  cases hcfg : cfg.u with
  | pipeline params => exact init_isSome_iff hcfg
  | rtc params =>
      dsimp only
      rw [init]
      split_ifs with hrefused
      · simpa using (rtcRefused_iff hcfg).mp hrefused
      · rw [rtcRefused_iff hcfg, not_not] at hrefused
        rw [Option.isSome_map]
        exact iff_of_true (PortLoop.foldlM_rtc hcfg _ _) hrefused

end Available

/-! ## Start-up -/

/-- What has to be there for a configuration. -/
structure FlagConfig.Ready (eal : Eal) (d : Dpdk) (shm : Option (Option CpUpdate)) (c : FlagConfig) :
    Prop where
  ealInit : 0 ≤ d.ealInit
  pool : d.poolCreated = true
  devices : d.devices ≠ []
  setUp : ∀ i ∈ d.devices, portEnabled c.portMask i = true → (d.setUp i).isSome
  link : ∃ attempt, 0 < attempt ∧ attempt ≤ Dpdk.linkCheckAttempts ∧
    ∃ i ∈ d.devices, portEnabled c.portMask i = true ∧ d.linkUp attempt i = true
  available : c.toDatapathConfig.Available eal
  workerPort : c.workerPort.toNat ∈ enabledPorts c.portMask
  shm : shm.isSome

section Spec

variable {eal : Eal} {d : Dpdk} {scfg : ServiceConfig} {shm : Option (Option CpUpdate)}
  {f : DatapathFlags} {c : FlagConfig}

/-- No configuration has an empty mask. -/
theorem portMask_ne_zero (h : datapathConfigFromFlags f = .ok c) : c.portMask ≠ 0 := by
  have hmask := (problems_of_ok h).2.portMask
  intro hzero
  rw [hzero] at hmask
  split_ifs at hmask with hnone
  · cases hmask
  · exact hnone (UInt64.toNat_inj.mp hmask.symm)

theorem dpdkInit_iff (hmask : c.portMask ≠ 0) :
    (∃ addrs, d.init c.portMask = .ok addrs) ↔
      0 ≤ d.ealInit ∧ d.poolCreated = true ∧ d.devices ≠ [] ∧
        (∀ i ∈ d.devices, portEnabled c.portMask i = true → (d.setUp i).isSome) ∧
        ∃ attempt, 0 < attempt ∧ attempt ≤ Dpdk.linkCheckAttempts ∧
          ∃ i ∈ d.devices, portEnabled c.portMask i = true ∧ d.linkUp attempt i = true := by
  have hlink : d.linkOk c.portMask Dpdk.linkCheckAttempts = true ↔ _ :=
    Dpdk.linkOk_iff Dpdk.linkCheckAttempts (Nat.le_refl _)
  rw [Nat.sub_self] at hlink
  rw [← hlink, ← (Dpdk.foldlM_initDevice d.devices fun _ => zeroMac).1]
  constructor
  · rintro ⟨addrs, h⟩
    obtain ⟨heal, hpool, hports, hup⟩ := (Dpdk.init_ok_iff hmask).mp h
    obtain ⟨hdevices, hset⟩ := Dpdk.portInit_ok_iff.mp hports
    exact ⟨heal, hpool, hdevices, ⟨addrs, hset⟩, hup⟩
  · rintro ⟨heal, hpool, hdevices, ⟨addrs, hset⟩, hup⟩
    exact ⟨addrs, (Dpdk.init_ok_iff hmask).mpr
      ⟨heal, hpool, Dpdk.portInit_ok_iff.mpr ⟨hdevices, hset⟩, hup⟩⟩

/-- The stages of `VioletGW::init`. -/
theorem startUp_ok_iff {r : Started} :
    startUp eal d scfg shm f = .ok r ↔
      ∃ c addrs m, datapathConfigFromFlags f = .ok c ∧ d.init c.portMask = .ok addrs ∧
        NetifManager.init eal c.toDatapathConfig .fresh = some m ∧
        startServices scfg shm addrs c.workerPort m = .ok r := by
  rw [startUp]
  cases datapathConfigFromFlags f with
  | error e => simp
  | ok c =>
      dsimp only
      cases hdpdk : d.init c.portMask with
      | error stop => simp [hdpdk]
      | ok addrs =>
          dsimp only
          cases hm : NetifManager.init eal c.toDatapathConfig .fresh with
          | none => simp [hm]
          | some m => simp [hdpdk, hm]

/-- The MAC address that the gateway takes: that of the port, or zero if the port is not a device. -/
def Dpdk.macOf (d : Dpdk) (port : Nat) : EtherAddr :=
  if port ∈ d.devices then (d.setUp port).getD zeroMac else zeroMac

theorem macOf_of_init (hmask : c.portMask ≠ 0) {addrs : Dpdk.EtherAddrs}
    (h : d.init c.portMask = .ok addrs) {port : Nat} (hport : port ∈ enabledPorts c.portMask) :
    addrs port = d.macOf port := by
  obtain ⟨-, -, hports, -⟩ := (Dpdk.init_ok_iff hmask).mp h
  obtain ⟨-, hset⟩ := Dpdk.portInit_ok_iff.mp hports
  have hon : portEnabled c.portMask port = true := (List.mem_filter.mp hport).2
  rw [(Dpdk.foldlM_initDevice d.devices _).2 addrs hset port, Dpdk.macOf]
  simp only [hon, and_true]

/-- The end of `VioletGW::init`. -/
theorem startServices_spec {m : NetifManager}
    (hm : NetifManager.init eal c.toDatapathConfig .fresh = some m) (addrs : Dpdk.EtherAddrs) :
    ((∃ r, startServices scfg shm addrs c.workerPort m = .ok r) ↔
        c.workerPort.toNat ∈ enabledPorts c.portMask ∧ shm.isSome) ∧
      ∀ r, startServices scfg shm addrs c.workerPort m = .ok r →
        (∃ netif, r.manager.getNetif c.workerPort.toNat = some r.netif ∧
          r.manager.objects[r.netif]? = some netif ∧ netif.portId = c.workerPort) ∧
        r.gw.fcfg.gatewayMac = addrs c.workerPort.toNat ∧
        r.gw.acfg.gatewayMac = addrs c.workerPort.toNat := by
  obtain ⟨hsome, hmade⟩ := NetifManager.getNetif_of_init hm c.workerPort.toNat
  have hworker : UInt16.ofNat c.workerPort.toNat = c.workerPort := UInt16.ofNat_toNat
  rw [startServices, ← hsome]
  cases hnetif : m.getNetif c.workerPort.toNat with
  | none => simp
  | some k =>
      cases shm with
      | none => simp
      | some update =>
          obtain ⟨netif, hobject, hport⟩ := hmade k hnetif
          rw [hworker] at hport
          have hlt : c.workerPort < 32 := by
            have hmem := hsome.mp (hnetif ▸ rfl)
            exact UInt16.lt_iff_toNat_lt.mpr (lt_of_mem_enabledPorts hmem)
          refine ⟨by simp, ?_⟩
          intro r hr
          obtain rfl := Except.ok.inj hr
          dsimp only
          rw [hobject, Option.getD_some, hport, if_pos hlt]
          exact ⟨⟨netif, hnetif, rfl, hport⟩, rfl, rfl⟩

end Spec

/-- `VioletGW::init` succeeds if and only if the flags are accepted and everything is there that the
configuration needs: EAL, the mempool, all enabled devices, a link within four attempts, the rings and
the lcores for the loops that are launched or a single worker, the worker's port in the mask, and the
control segment. Then the worker's netif is made for the port of the flag, and both handlers have the MAC
address of that port, which is zero if there is no such device. -/
theorem startUp_spec (eal : Eal) (d : Dpdk) (scfg : ServiceConfig) (shm : Option (Option CpUpdate))
    (f : DatapathFlags) :
    ((∃ r, startUp eal d scfg shm f = .ok r) ↔
        ∃ c, datapathConfigFromFlags f = .ok c ∧ c.Ready eal d shm) ∧
      ∀ r, startUp eal d scfg shm f = .ok r →
        (∃ netif, r.manager.getNetif f.datapathWorkerPort.toNat = some r.netif ∧
          r.manager.objects[r.netif]? = some netif ∧
          netif.portId.toNat = f.datapathWorkerPort.toNat) ∧
        r.gw.fcfg.gatewayMac = d.macOf f.datapathWorkerPort.toNat ∧
        r.gw.acfg.gatewayMac = d.macOf f.datapathWorkerPort.toNat := by
  constructor
  · constructor
    · rintro ⟨r, hr⟩
      obtain ⟨c, addrs, m, hc, hdpdk, hm, hservices⟩ := startUp_ok_iff.mp hr
      obtain ⟨heal, hpool, hdevices, hset, hlink⟩ :=
        (dpdkInit_iff (portMask_ne_zero hc)).mp ⟨addrs, hdpdk⟩
      obtain ⟨hworker, hshm⟩ := (startServices_spec hm addrs).1.mp ⟨r, hservices⟩
      refine ⟨c, hc, heal, hpool, hdevices, hset, hlink, ?_, hworker, hshm⟩
      exact NetifManager.init_isSome_iff_available.mp (hm ▸ rfl)
    · rintro ⟨c, hc, h⟩
      obtain ⟨addrs, hdpdk⟩ := (dpdkInit_iff (portMask_ne_zero hc)).mpr
        ⟨h.ealInit, h.pool, h.devices, h.setUp, h.link⟩
      obtain ⟨m, hm⟩ := Option.isSome_iff_exists.mp
        (NetifManager.init_isSome_iff_available.mpr h.available)
      obtain ⟨r, hservices⟩ : ∃ r, startServices scfg shm addrs c.workerPort m = .ok r :=
        (startServices_spec hm addrs).1.mpr ⟨h.workerPort, h.shm⟩
      exact ⟨r, startUp_ok_iff.mpr ⟨c, addrs, m, hc, hdpdk, hm, hservices⟩⟩
  · intro r hr
    obtain ⟨c, addrs, m, hc, hdpdk, hm, hservices⟩ := startUp_ok_iff.mp hr
    have hport := (problems_of_ok hc).2.workerPort
    obtain ⟨hworker, -⟩ := (startServices_spec hm addrs).1.mp ⟨r, hservices⟩
    obtain ⟨⟨netif, hnetif, hobject, hmade⟩, hfwd, harp⟩ := (startServices_spec hm addrs).2 r hservices
    have hmac := macOf_of_init (portMask_ne_zero hc) hdpdk hworker
    rw [hmac, hport] at hfwd harp
    rw [hport] at hnetif
    exact ⟨⟨netif, hnetif, hobject, hmade ▸ hport⟩, hfwd, harp⟩

/-- One device, whose link comes up at the third attempt. -/
def labDpdk : Dpdk where
  ealInit := 0
  poolCreated := true
  devices := [0]
  devices_lt := by decide
  setUp := fun _ => some Config.gatewayMac
  linkUp := fun attempt _ => decide (3 ≤ attempt)

/-- Ports 0 and 1 are enabled, and the worker is to serve port 1, which is not a device: start-up
succeeds all the same. -/
example : (startUp labEal labDpdk .lab (some none)
    { datapathPortMask := 3, datapathWorkerPort := 1 }).toOption.map (fun r => r.gw.acfg.gatewayMac) =
      some zeroMac := by
  decide +kernel

/-- With the main lcore only, the loops must not be launched. -/
example : (startUp { labEal with workers := [], nextLcore := fun _ => 128 } labDpdk .lab (some none)
      {}).toOption.isSome = false ∧
    (startUp { labEal with workers := [], nextLcore := fun _ => 128 } labDpdk .lab (some none)
      { ioRxLcore := false, ioTxLcore := false }).toOption.isSome = true := by
  decide +kernel

end VioletGateway
