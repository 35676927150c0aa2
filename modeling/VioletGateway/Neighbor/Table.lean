import VioletGateway.Support.AssocMap
import VioletGateway.Config

/-!
# The neighbor table

Model of `NeighborTable`: a map from IPv4 addresses to MAC addresses, with static entries that are
seeded at start-up and dynamic ones that are learned and expire. `learn` refuses to replace a static
entry.
-/

set_option autoImplicit false

namespace VioletGateway

open Support

structure NeighborEntry where
  ip : UInt32 := 0
  mac : EtherAddr := fun _ => 0
  lastSeenMs : UInt64 := 0
  isStatic : Bool := false

structure NeighborTable where
  entryTimeoutMs : UInt64
  entries : AList fun _ : UInt32 => NeighborEntry

namespace NeighborTable

/-- The constructor. -/
def new (entryTimeoutMs : UInt64 := 300000) : NeighborTable := ⟨entryTimeoutMs, ∅⟩

/-- `seed`. -/
def seed (t : NeighborTable) (ip : UInt32) (mac : EtherAddr) : NeighborTable :=
  { t with entries := t.entries.insert ip { ip := ip, mac := mac, isStatic := true } }

/-- `lookup`. -/
def lookup (t : NeighborTable) (ip : UInt32) : Option EtherAddr :=
  (t.entries.lookup ip).map NeighborEntry.mac

/-- The entry of `ip` is static. -/
def hasStatic (t : NeighborTable) (ip : UInt32) : Bool :=
  match t.entries.lookup ip with
  | some e => e.isStatic
  | none => false

/-- `learn`. -/
def learn (t : NeighborTable) (ip : UInt32) (mac : EtherAddr) (nowMs : UInt64) : NeighborTable :=
  -- a seeded entry wins over what is learned
  if t.hasStatic ip then t
  else
    let e : NeighborEntry := { ip := ip, mac := mac, lastSeenMs := nowMs, isStatic := false }
    { t with entries := t.entries.insert ip e }

/-- The test of the loop in `expire`: the entry stays, or it is erased. -/
def expireEntry (t : NeighborTable) (nowMs : UInt64) (e : NeighborEntry) : Option NeighborEntry :=
  if e.isStatic then some e
  -- unsigned difference, as in the source
  else if nowMs - e.lastSeenMs ≥ t.entryTimeoutMs then none
  else some e

/-- `expire`. -/
def expire (t : NeighborTable) (nowMs : UInt64) : NeighborTable :=
  { t with entries := mapMaybe (fun _ e => t.expireEntry nowMs e) t.entries }

/-- Learning makes the address resolvable. -/
theorem lookup_learn_self (t : NeighborTable) (ip : UInt32) (mac : EtherAddr) (now : UInt64) :
    ((t.learn ip mac now).lookup ip).isSome = true := by
  rw [learn]
  split
  · rename_i hstatic
    rw [hasStatic] at hstatic
    cases he : t.entries.lookup ip with
    | none => simp [he] at hstatic
    | some e => simp [lookup, he]
  · simp [lookup]

/-- Learning one address does not affect another. -/
theorem lookup_learn_ne (t : NeighborTable) {ip ip' : UInt32} (mac : EtherAddr) (now : UInt64)
    (h : ip' ≠ ip) : (t.learn ip mac now).lookup ip' = t.lookup ip' := by
  rw [learn]
  split
  · rfl
  · simp [lookup, AList.lookup_insert_ne h]

end NeighborTable

end VioletGateway
