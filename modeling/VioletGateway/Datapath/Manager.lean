import Mathlib.Data.List.AList
import VioletGateway.Io.Pipeline

/-!
# The netif manager

Model of `DpdkNetifManager::init` in both modes. Every enabled port gets a netif, in pipeline mode with
two rings, and there its loops `run_recv` and `run_send` are launched on a pair of worker lcores.

EAL is a parameter. What is assumed of it is what its documentation says: lcores are enumerated without
repetition (`Eal.Enumerates`), and a launch takes effect if and only if the lcore waits
(`Eal.LaunchesWhenIdle`).
-/

set_option autoImplicit false

namespace VioletGateway

/-! ## The configuration -/

/-- `DatapathMode`. -/
inductive DatapathMode
  | pipeline
  | rtc

/-- `RtcSteer`. -/
inductive RtcSteer
  | auto
  | hwRss
  | softRr
deriving DecidableEq

/-- `RtcResolvedPath`. -/
inductive RtcResolvedPath
  | direct
  | hwRss
  | softRr
deriving DecidableEq

/-- `PipelineParams`. -/
structure PipelineParams where
  ringSize : UInt16
  launchRxLcore : Bool
  launchTxLcore : Bool
  txRingFullSleepUs : Int

/-- `RtcParams`. The manager reads `steer` and `workers`. -/
structure RtcParams where
  steer : RtcSteer := .auto
  workers : UInt16 := 1
  rxQueues : UInt16 := 0
  txQueues : UInt16 := 0
  distRingSize : UInt16 := 0

/-- The union in `DatapathConfig`, with the mode that says which member is set. -/
inductive DatapathParams
  | pipeline (params : PipelineParams)
  | rtc (params : RtcParams)

/-- `DatapathConfig`. -/
structure DatapathConfig where
  portMask : UInt32
  u : DatapathParams

def DatapathConfig.mode (cfg : DatapathConfig) : DatapathMode :=
  match cfg.u with
  | .pipeline _ => .pipeline
  | .rtc _ => .rtc

/-- `IO_RING_SIZE`. -/
def Config.ioRingSize : UInt16 := 32

/-- `IO_RING_FLAGS`. -/
def Config.ioRingFlags : Nat := 0

/-- `IO_PORTS_PER_RXTX_LCORE_PAIR`. -/
def Config.ioPortsPerRxtxLcorePair : Nat := 2

/-- `datapath_config_defaults`. -/
def datapathConfigDefaults : DatapathConfig where
  portMask := 1
  u := .pipeline
    { ringSize := 0, launchRxLcore := true, launchTxLcore := true, txRingFullSleepUs := 10 }

/-- `resolve_rtc_path`. -/
def resolveRtcPath (rtc : RtcParams) (hwRssUsable : Bool) : RtcResolvedPath :=
  if rtc.workers ≤ 1 then .direct
  else if rtc.steer = .hwRss then .hwRss
  else if rtc.steer = .softRr then .softRr
  else if hwRssUsable then .hwRss
  else .softRr

/-! ## EAL -/

/-- What an lcore is given to do, with the address of the netif. -/
inductive Job
  | runRecv (netif : Nat)
  | runSend (netif : Nat)
deriving DecidableEq

/-- What every lcore is running, `none` if it waits. -/
abbrev Lcores := Nat → Option Job

/-- The calls of DPDK that the manager makes. -/
structure Eal where
  /-- `rte_lcore_id()`. -/
  lcoreId : Nat
  /-- The enabled lcores other than the main one. -/
  workers : List Nat
  /-- `rte_get_next_lcore(i, true, false)`. -/
  nextLcore : Nat → Nat
  /-- `rte_ring_create` for a name, a count and flags. -/
  ringCreate : String → Nat → Nat → Option (Ring Nat)
  /-- `rte_eal_remote_launch`: its result, and what the lcores are running then. -/
  remoteLaunch : Lcores → Job → Nat → Int × Lcores

namespace Eal

/-- The `k`-th lcore in the order of `rte_get_next_lcore`, counted from the caller's. -/
def lcore (eal : Eal) (k : Nat) : Nat := eal.nextLcore^[k] eal.lcoreId

/-- There are `n` more lcores, they are workers, and they are distinct. -/
structure Enumerates (eal : Eal) (n : Nat) : Prop where
  worker : ∀ k, 1 ≤ k → k ≤ n → eal.lcore k ∈ eal.workers
  distinct : ∀ j k, 1 ≤ j → j ≤ n → 1 ≤ k → k ≤ n → eal.lcore j = eal.lcore k → j = k

/-- A launch takes effect on a worker that waits, and on no other. -/
structure LaunchesWhenIdle (eal : Eal) : Prop where
  idle : ∀ lcores job l, l ∈ eal.workers → lcores l = none →
    (eal.remoteLaunch lcores job l).2 = Function.update lcores l (some job)
  busy : ∀ lcores job l, l ∈ eal.workers → lcores l ≠ none →
    (eal.remoteLaunch lcores job l).2 = lcores

theorem Enumerates.mono {eal : Eal} {m n : Nat} (h : eal.Enumerates n) (hmn : m ≤ n) :
    eal.Enumerates m where
  worker := fun k hk hkm => h.worker k hk (hkm.trans hmn)
  distinct := fun j k hj hjm hk hkm => h.distinct j k hj (hjm.trans hmn) hk (hkm.trans hmn)

theorem Enumerates.pair_ne {eal : Eal} {n k : Nat} (h : eal.Enumerates n) (hk : k + 2 ≤ n) :
    eal.lcore (k + 1) ≠ eal.lcore (k + 2) := by
  intro heq
  have hsucc := h.distinct (k + 1) (k + 2) (by omega) (by omega) (by omega) hk heq
  omega

theorem lcore_succ (eal : Eal) (k : Nat) : eal.nextLcore (eal.lcore k) = eal.lcore (k + 1) :=
  (Function.iterate_succ_apply' eal.nextLcore k eal.lcoreId).symm

end Eal

/-! ## A netif -/

/-- `DpdkNetif::PipelineState`. -/
structure PipelineState where
  rxRing : Ring Nat
  txRing : Ring Nat
  stop : Bool
  txRingFullSleepUs : Int

/-- `DpdkNetif::State`. -/
inductive NetifState
  | pipeline (state : PipelineState)
  | rtc

/-- `DpdkNetif`. There is a state while `state_active_` is set. -/
structure DpdkNetif where
  mode : DatapathMode := .pipeline
  portId : UInt16 := 0
  queueId : UInt16 := 0
  state : Option NetifState := none

/-- `RX_RING_NAME`. -/
def rxRingName (port : Nat) : String := "vgw_rx_ring_" ++ toString port

/-- `TX_RING_NAME`. -/
def txRingName (port : Nat) : String := "vgw_tx_ring_" ++ toString port

/-- The number of slots that is asked for. -/
def PipelineParams.ringCap (params : PipelineParams) : UInt16 :=
  if 0 < params.ringSize then params.ringSize else Config.ioRingSize

namespace DpdkNetif

/-- `reset_state`. -/
def resetState (netif : DpdkNetif) : DpdkNetif := { netif with state := none }

/-- `DpdkNetif::init`; `none` if a ring cannot be created, where `make_ring` exits. -/
def init (eal : Eal) (port : UInt16) (cfg : DatapathConfig) (netif : DpdkNetif) : Option DpdkNetif :=
  let netif := { netif.resetState with mode := cfg.mode, portId := port, queueId := 0 }
  match cfg.u with
  | .pipeline params => do
      let ringCap := params.ringCap.toNat
      let rxRing ← eal.ringCreate (rxRingName port.toNat) ringCap Config.ioRingFlags
      let txRing ← eal.ringCreate (txRingName port.toNat) ringCap Config.ioRingFlags
      return { netif with state := some (.pipeline
        { rxRing, txRing, stop := false, txRingFullSleepUs := params.txRingFullSleepUs }) }
  | .rtc _ => some { netif with state := some .rtc }

/-- The loops `run_recv` and `run_send` of the netif go on. -/
def Live (netif : DpdkNetif) : Prop :=
  ∃ state, netif.state = some (.pipeline state) ∧ state.stop = false

end DpdkNetif

/-! ## The manager -/

/-- `DpdkNetifManager`, with the netifs by their addresses and the lcores. -/
structure NetifManager where
  netifs : AList fun _ : Nat => Nat
  objects : List DpdkNetif
  lcores : Lcores

/-- The variables of the loop in `DpdkNetifManager::init`. -/
structure PortLoop extends NetifManager where
  rxId : Nat
  txId : Nat
  cnt : Nat

/-- `std::map::insert`: an entry that is there stays. -/
def insertNew (netifs : AList fun _ : Nat => Nat) (port netif : Nat) : AList fun _ : Nat => Nat :=
  if (netifs.lookup port).isSome then netifs else netifs.insert port netif

/-- The test of the loop for a bit of the mask. -/
def portEnabled (portMask : UInt32) (i : Nat) : Bool :=
  decide (portMask &&& ((1 : UInt32) <<< UInt32.ofNat i) ≠ 0)

/-- The ports of a mask, in the order of the loop. -/
def enabledPorts (portMask : UInt32) : List Nat := (List.range 32).filter (portEnabled portMask)

namespace PortLoop

/-- `new DpdkNetif` and its entry in the map. -/
def store (s : PortLoop) (i : Nat) (netif : DpdkNetif) : PortLoop :=
  { s with
    objects := s.objects ++ [netif]
    netifs := insertNew s.netifs i s.objects.length }

/-- What a launch does. Its result is ignored. -/
def remoteLaunch (eal : Eal) (s : PortLoop) (job : Job) (id : Nat) : PortLoop :=
  { s with lcores := (eal.remoteLaunch s.lcores job id).2 }

/-- A launch; `none` if there is no such worker. Behind the last lcore the loop has fetched
`RTE_MAX_LCORE`, and the launch looks up the state of that lcore out of bounds. -/
def launch (eal : Eal) (s : PortLoop) (job : Job) (id : Nat) : Option PortLoop :=
  if id ∈ eal.workers then some (s.remoteLaunch eal job id) else none

/-- After a port in pipeline mode: the next pair of lcores, once enough ports share this one. -/
def advance (eal : Eal) (s : PortLoop) : PortLoop :=
  if s.cnt + 1 = Config.ioPortsPerRxtxLcorePair then
    { s with
      cnt := 0
      rxId := eal.nextLcore s.txId
      txId := eal.nextLcore (eal.nextLcore s.txId) }
  else { s with cnt := s.cnt + 1 }

/-- The body of the loop for an enabled port, once its netif is set up. -/
def addPort (eal : Eal) (cfg : DatapathConfig) (s : PortLoop) (i : Nat) (netif : DpdkNetif) :
    Option PortLoop :=
  let ptr := s.objects.length
  let s := s.store i netif
  match cfg.u with
  | .pipeline params => do
      let s ← if params.launchRxLcore then s.launch eal (.runRecv ptr) s.rxId else some s
      let s ← if params.launchTxLcore then s.launch eal (.runSend ptr) s.txId else some s
      return s.advance eal
  | .rtc _ => some s

/-- The body of the loop. -/
def initPort (eal : Eal) (cfg : DatapathConfig) (s : PortLoop) (i : Nat) : Option PortLoop :=
  if portEnabled cfg.portMask i then
    (DpdkNetif.init eal (UInt16.ofNat i) cfg {}).bind (s.addPort eal cfg i)
  else some s

end PortLoop

namespace NetifManager

/-- The singleton before `init`, when EAL has just started: all lcores wait. -/
def fresh : NetifManager where
  netifs := ∅
  objects := []
  lcores := fun _ => none

/-- The loop variables before the first port. -/
def startLoop (eal : Eal) (cfg : DatapathConfig) (m : NetifManager) : PortLoop :=
  match cfg.u with
  | .pipeline _ =>
      { m with
        rxId := eal.nextLcore eal.lcoreId
        txId := eal.nextLcore (eal.nextLcore eal.lcoreId)
        cnt := 0 }
  | .rtc _ => { m with rxId := 0, txId := 0, cnt := 0 }

/-- `RTC multi-worker paths are not available`. -/
def rtcRefused (cfg : DatapathConfig) : Bool :=
  match cfg.u with
  | .pipeline _ => false
  | .rtc params => decide (resolveRtcPath params false ≠ .direct)

/-- `DpdkNetifManager::init`; `none` where it exits, or launches out of bounds. -/
def init (eal : Eal) (cfg : DatapathConfig) (m : NetifManager) : Option NetifManager :=
  if rtcRefused cfg then none
  else
    ((List.range 32).foldlM (PortLoop.initPort eal cfg) (m.startLoop eal cfg)).map
      PortLoop.toNetifManager

/-- `get_netif`. -/
def getNetif (m : NetifManager) (port : Nat) : Option Nat := m.netifs.lookup port

/-- A port has exactly one netif, and both loops of it are running, on two worker lcores. -/
def Served (eal : Eal) (m : NetifManager) (port : Nat) : Prop :=
  ∃ ptr netif, m.getNetif port = some ptr ∧ m.objects[ptr]? = some netif ∧
    netif.portId = UInt16.ofNat port ∧ netif.Live ∧
    (∀ ptr' netif', m.objects[ptr']? = some netif' → netif'.portId = UInt16.ofNat port → ptr' = ptr) ∧
    ∃ rx ∈ eal.workers, ∃ tx ∈ eal.workers, rx ≠ tx ∧
      m.lcores rx = some (.runRecv ptr) ∧ m.lcores tx = some (.runSend ptr)

end NetifManager

end VioletGateway
