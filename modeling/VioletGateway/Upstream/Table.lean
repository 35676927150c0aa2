import VioletGateway.Session.Table

/-!
# The upstream table

Model of `UpstreamTable`: the endpoint list and the balance policy that the control plane installs,
and the round-robin counter that `pick` advances.
-/

set_option autoImplicit false

namespace VioletGateway

structure UpstreamEndpoint where
  ip : UInt32 := 0
  port : UInt16 := 0
deriving DecidableEq

inductive BalancePolicy
  | mod
  | rr
deriving DecidableEq

structure UpstreamTable where
  policy : BalancePolicy := .mod
  nodes : List UpstreamEndpoint := []
  rrCounter : UInt64 := 0

/-- A configuration that `poll_apply` found published in the shared memory. -/
structure CpUpdate where
  policy : BalancePolicy
  endpoints : List UpstreamEndpoint
deriving DecidableEq

namespace UpstreamTable

/-- `set`. -/
def set (t : UpstreamTable) (endpoints : List UpstreamEndpoint) : UpstreamTable :=
  { t with nodes := endpoints }

/-- `set_policy`. -/
def setPolicy (t : UpstreamTable) (policy : BalancePolicy) : UpstreamTable :=
  { t with policy := policy }

/-- The effect of `poll_apply` on the table when it applies an update. -/
def apply (t : UpstreamTable) (u : CpUpdate) : UpstreamTable :=
  (t.setPolicy u.policy).set u.endpoints

/-- `hash_key`. -/
def hashKey (key : FlowKey) : UInt32 :=
  -- only the client's address and port enter, so a client keeps its upstream
  let h := key.srcIp
  let h := h ^^^ (key.srcPort.toUInt32 * 0x9e3779b9)
  let h := h ^^^ (h >>> 16)
  let h := h * 0x85ebca6b
  h ^^^ (h >>> 13)

/-- `pick`; the counter advances only when an endpoint is chosen round-robin. -/
def pick (t : UpstreamTable) (key : FlowKey) : Option UpstreamEndpoint × UpstreamTable :=
  if t.nodes.isEmpty then (none, t)
  else
    match t.policy with
    | .rr =>
      -- `fetch_add`: the old value selects
      (t.nodes[t.rrCounter.toNat % t.nodes.length]?, { t with rrCounter := t.rrCounter + 1 })
    | .mod => (t.nodes[(hashKey key).toNat % t.nodes.length]?, t)

/-- A picked endpoint is one of the installed list. -/
theorem mem_nodes_of_pick {t : UpstreamTable} {key : FlowKey} {ep : UpstreamEndpoint}
    (h : (t.pick key).1 = some ep) : ep ∈ t.nodes := by
  rw [pick] at h
  split at h
  · simp at h
  · split at h
    · exact List.mem_of_getElem? h
    · exact List.mem_of_getElem? h

/-- Picking leaves the installed list and policy alone. -/
theorem pick_nodes (t : UpstreamTable) (key : FlowKey) : (t.pick key).2.nodes = t.nodes := by
  rw [pick]
  split
  · rfl
  · split <;> rfl

end UpstreamTable

end VioletGateway
