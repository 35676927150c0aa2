import Mathlib.Data.UInt
import VioletGateway.Config
import VioletGateway.Support.Loads
import VioletGateway.Upstream.Table

/-!
# The shared memory of the control plane

Model of `vgw_cp_shm`, the block by which the control plane hands a configuration to the gateway, of
its two writers, `CpShm::publish` and the `publish` of the tool `vgwcp`, and of its reader
`CpShm::poll_apply`. The block is a byte memory; a writer is a list of stores, one for each field, and
the reader a program of loads, so that both can be taken apart step by step.

The machine is little-endian. The text of the command line of `vgwcp` is parsed by the Go library;
here a request starts from the four bytes of an address and a port.
-/

set_option autoImplicit false

namespace VioletGateway

open Support

namespace Shm

/-! ## The layout -/

def magicOff : Nat := 0
def versionOff : Nat := 4
def policyOff : Nat := 8
def flagsOff : Nat := 9
def countOff : Nat := 10

/-- The offset of `endpoints[i]`: `ip_be`, `port` and `_pad` are at 0, 4 and 6 from there. -/
def endpointOff (i : Nat) : Nat := 12 + 8 * i

/-- `VGW_CP_SHM_MAX_EP`. -/
def maxEp : Nat := 64

/-- `sizeof(vgw_cp_shm)`. -/
def size : Nat := 524

/-- `VGW_CP_SHM_MAGIC`. -/
def magic : UInt32 := 0x56475743

def policyMod : UInt8 := 0
def policyRr : UInt8 := 1

/-- The value of the enumeration. -/
def policyByte : BalancePolicy → UInt8
  | .mod => policyMod
  | .rr => policyRr

/-- What `poll_apply` makes of the byte. -/
def policyOf (policy : UInt8) : BalancePolicy := if policy = policyRr then .rr else .mod

theorem policyOf_policyByte (policy : BalancePolicy) : policyOf (policyByte policy) = policy := by
  cases policy <;> rfl

/-! ## Fields -/

def load8 (off : Nat) : Loads UInt8 := .load off 1 fun b => .done (b 0)

def load16 (off : Nat) : Loads UInt16 := .load off 2 fun b => .done (ofLe16 b)

def load32 (off : Nat) : Loads UInt32 := .load off 4 fun b => .done (ofLe32 b)

def store8 (off : Nat) (x : UInt8) : Store := ⟨off, 1, fun _ => x⟩

def store16 (off : Nat) (x : UInt16) : Store := ⟨off, 2, le16 x⟩

def store32 (off : Nat) (x : UInt32) : Store := ⟨off, 4, le32 x⟩

/-- `load_version`. -/
def loadVersion : Loads UInt32 := load32 versionOff

/-- The version after `cur`: zero is left out. Both writers compute it. -/
def nextVersion (cur : UInt32) : UInt32 := if cur + 1 = 0 then 1 else cur + 1

/-! ## The writer of the gateway -/

/-- The number of endpoints that `write_seed_unlocked` writes. -/
def seedCount (seed : CpUpdate) : UInt16 :=
  let n := UInt16.ofNat seed.endpoints.length
  if n > 64 then 64 else n

/-- `endpoints[i] = e`, field by field. -/
def storeEndpoint (i : Nat) (e : UpstreamEndpoint) : List Store :=
  [store32 (endpointOff i) e.ip, store16 (endpointOff i + 4) e.port, store16 (endpointOff i + 6) 0]

/-- The stores of `write_seed_unlocked` before the last one. -/
def seedStores (seed : CpUpdate) : List Store :=
  let n := seedCount seed
  [store8 policyOff (policyByte seed.policy), store8 flagsOff 0, store16 countOff n] ++
    (List.range n.toNat).flatMap (fun i => storeEndpoint i (seed.endpoints.getD i {})) ++
    (List.range' n.toNat (maxEp - n.toNat)).flatMap (fun i => storeEndpoint i {})

/-- `write_seed_unlocked`. -/
def writeSeedUnlocked (seed : CpUpdate) (version : UInt32) : List Store :=
  -- `store_version` comes last
  seedStores seed ++ [store32 versionOff version]

/-- `CpShm::publish`. -/
def publish (seed : CpUpdate) : Loads (List Store) := do
  let cur ← loadVersion
  return writeSeedUnlocked seed (nextVersion cur)

/-- `CpShm::open` when it creates the segment, on memory that `ftruncate` has cleared. -/
def openCreate (seed : Option CpUpdate) : List Store :=
  [store32 magicOff magic] ++
    match seed with
    | some seed => writeSeedUnlocked seed 1
    | none => [store32 versionOff 0]

end Shm

/-! ## The writer of the control tool -/

namespace Vgwcp

open Shm

/-- `binary.BigEndian.Uint32`. -/
def beUint32 (b : Fin 4 → UInt8) : UInt32 :=
  UInt32.ofNat ((b 3).toNat + 256 * (b 2).toNat + 65536 * (b 1).toNat + 16777216 * (b 0).toNat)

/-- `binary.BigEndian.PutUint32`. -/
def putBe32 (off : Nat) (x : UInt32) : Store := ⟨off, 4, fun i => le32 x i.rev⟩

/-- The `endpoint` of the tool. -/
structure Endpoint where
  ipBE : UInt32
  port : UInt16

/-- `parseUpstreams`, from the addresses and ports that the library has parsed. -/
def parseUpstreams (ups : List ((Fin 4 → UInt8) × UInt16)) : List Endpoint :=
  ups.map fun up => ⟨beUint32 up.1, up.2⟩

/-- The stores to the slot `i`. -/
def storeSlot (eps : List Endpoint) (i : Nat) : List Store :=
  match eps[i]? with
  | some e =>
    [putBe32 (endpointOff i) e.ipBE, store16 (endpointOff i + 4) e.port,
      store16 (endpointOff i + 6) 0]
  -- an unused slot is cleared byte by byte
  | none => (List.range 8).map fun j => store8 (endpointOff i + j) 0

/-- The stores of `publish` before the last one. -/
def dataStores (policy : UInt8) (eps : List Endpoint) : List Store :=
  [store32 magicOff magic, store8 policyOff policy, store8 flagsOff 0,
    store16 countOff (UInt16.ofNat eps.length)] ++ (List.range maxEp).flatMap (storeSlot eps)

/-- `publish`. -/
def publish (policy : UInt8) (eps : List Endpoint) : Loads (List Store) := do
  let cur ← load32 versionOff
  return dataStores policy eps ++ [store32 versionOff (nextVersion cur)]

end Vgwcp

/-! ## The reader -/

namespace Shm

/-- What `poll_apply` finds: nothing to apply, or a version and the update to install. -/
abbrev Found := Option (UInt32 × CpUpdate)

/-- `poll_apply`, its end: the version is loaded again. -/
def recheck (ver : UInt32) (policy : UInt8) (eps : List UpstreamEndpoint) : Loads Found := do
  if (← loadVersion) ≠ ver then
    return none
  return some (ver, ⟨policyOf policy, eps⟩)

/-- `poll_apply`, the loop over the endpoints, with `m` of them to go. -/
def copyEndpoints (ver : UInt32) (policy : UInt8) : Nat → List UpstreamEndpoint → Loads Found
  | 0, eps => recheck ver policy eps
  | m + 1, eps => do
    let ip ← load32 (endpointOff eps.length)
    let port ← load16 (endpointOff eps.length + 4)
    copyEndpoints ver policy m (eps ++ [⟨ip, port⟩])

/-- `poll_apply`, from the load of the count on. -/
def copyCount (ver : UInt32) (policy : UInt8) : Loads Found := do
  let count ← load16 countOff
  let count := if count > 64 then 64 else count
  copyEndpoints ver policy count.toNat []

/-- `poll_apply`, the copy of the configuration. -/
def copyConfig (ver : UInt32) : Loads Found := do
  let policy ← load8 policyOff
  copyCount ver policy

/-- `poll_apply`, from the load of the version on. -/
def pollVersion (lastApplied : UInt32) : Loads Found := do
  let ver ← loadVersion
  if ver = 0 ∨ ver = lastApplied then
    return none
  copyConfig ver

/-- `poll_apply`. -/
def pollApply (lastApplied : UInt32) : Loads Found := do
  if (← load32 magicOff) ≠ magic then
    return none
  pollVersion lastApplied

end Shm

end VioletGateway
