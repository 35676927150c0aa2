import VioletGateway.Session.SnatPool
import Mathlib.Data.List.AList

/-!
# The UDP session table

Model of `SessionTable`: the vector `sessions_` of owned sessions, the maps `forward_` and `reverse_`
from flow keys to sessions, and the port pool. Sessions are heap objects shared by the vector and the
maps, so a session is a pointer into `heap`; `new` takes the next unused address and `delete` clears
it. The maps are association lists with unique keys; their bucket order plays no role.
-/

set_option autoImplicit false

namespace VioletGateway

/-- UDP/IPv4 5-tuple: addresses in network byte order, ports in host byte order. -/
structure FlowKey where
  srcIp : UInt32 := 0
  dstIp : UInt32 := 0
  srcPort : UInt16 := 0
  dstPort : UInt16 := 0
  proto : UInt8 := 17
deriving DecidableEq

structure Session where
  /-- client to VIP -/
  forwardKey : FlowKey
  /-- upstream to gateway -/
  reverseKey : FlowKey
  clientIp : UInt32
  clientPort : UInt16
  vipIp : UInt32
  vipPort : UInt16
  upstreamIp : UInt32
  upstreamPort : UInt16
  snatPort : UInt16
  lastActiveMs : UInt64
deriving DecidableEq

/-- Address of a session object. -/
abbrev SessionPtr := Nat

structure SessionTable where
  gatewayIp : UInt32
  idleTimeoutMs : UInt64
  pool : SnatPool
  sessions : List SessionPtr
  forward : AList fun _ : FlowKey => SessionPtr
  reverse : AList fun _ : FlowKey => SessionPtr
  heap : SessionPtr → Option Session
  nextPtr : SessionPtr

namespace SessionTable

/-- The constructor. -/
def new (gatewayIp : UInt32) (idleTimeoutMs : UInt64 := 60000) (snatPortBegin : UInt16 := 10000)
    (snatPortEnd : UInt16 := 60000) : SessionTable where
  gatewayIp := gatewayIp
  idleTimeoutMs := idleTimeoutMs
  pool := .new snatPortBegin snatPortEnd
  sessions := []
  forward := ∅
  reverse := ∅
  heap := fun _ => none
  nextPtr := 0

/-- `lookup_forward`. -/
def lookupForward (t : SessionTable) (key : FlowKey) : Option SessionPtr := t.forward.lookup key

/-- `lookup_reverse`. -/
def lookupReverse (t : SessionTable) (key : FlowKey) : Option SessionPtr := t.reverse.lookup key

/-- `touch`. -/
def touch (t : SessionTable) (s : Option SessionPtr) (nowMs : UInt64) : SessionTable :=
  match s with
  | none => t
  | some p =>
    { t with heap :=
        Function.update t.heap p ((t.heap p).map fun s => { s with lastActiveMs := nowMs }) }

/-- The session object that `create` fills in. -/
def makeSession (gatewayIp : UInt32) (clientToVip : FlowKey) (upstreamIp : UInt32)
    (upstreamPort : UInt16) (snat : UInt16) (nowMs : UInt64) : Session where
  forwardKey := clientToVip
  clientIp := clientToVip.srcIp
  clientPort := clientToVip.srcPort
  vipIp := clientToVip.dstIp
  vipPort := clientToVip.dstPort
  upstreamIp := upstreamIp
  upstreamPort := upstreamPort
  snatPort := snat
  lastActiveMs := nowMs
  reverseKey :=
    { srcIp := upstreamIp
      dstIp := gatewayIp
      srcPort := upstreamPort
      dstPort := snat
      proto := clientToVip.proto }

/-- The table with the session object `s` allocated at `p` and filed under its two keys. -/
def addSession (t : SessionTable) (p : SessionPtr) (s : Session) : SessionTable :=
  { t with
    heap := Function.update t.heap p (some s)
    nextPtr := p + 1
    sessions := t.sessions ++ [p]
    forward := t.forward.insert s.forwardKey p
    reverse := t.reverse.insert s.reverseKey p }

/-- `create`; `none` when no SNAT port is left. -/
def create (t : SessionTable) (clientToVip : FlowKey) (upstreamIp : UInt32) (upstreamPort : UInt16)
    (nowMs : UInt64) : Option SessionPtr × SessionTable :=
  let r := t.pool.allocSnatPort
  let t := { t with pool := r.2 }
  -- the cursor has moved even though nothing was allocated
  if r.1 = 0 then (none, t)
  else
    let p := t.nextPtr
    (some p, t.addSession p (makeSession t.gatewayIp clientToVip upstreamIp upstreamPort r.1 nowMs))

/-- `erase_session`. -/
def eraseSession (t : SessionTable) (p : SessionPtr) : SessionTable :=
  match t.heap p with
  -- not reached from a pointer that the table handed out
  | none => t
  | some s =>
    { t with
      forward := t.forward.erase s.forwardKey
      reverse := t.reverse.erase s.reverseKey
      pool := t.pool.freeSnatPort s.snatPort
      sessions := t.sessions.erase p
      heap := Function.update t.heap p none }

/-- The test of the loop in `expire`. -/
def isIdle (t : SessionTable) (nowMs : UInt64) (p : SessionPtr) : Bool :=
  match t.heap p with
  | none => false
  -- unsigned difference: a session touched after `now_ms` counts as idle
  | some s => decide (nowMs - s.lastActiveMs ≥ t.idleTimeoutMs)

/-- The loop of `expire`, from index `i` with `removed` sessions removed so far. Each round
increments `i` or erases a session, so `sessions_.size()` rounds suffice. -/
def expireLoop (nowMs : UInt64) : Nat → Nat → Nat → SessionTable → Nat × SessionTable
  | 0, _, removed, t => (removed, t)
  | fuel + 1, i, removed, t =>
    match t.sessions[i]? with
    | none => (removed, t)
    | some p =>
      -- erasing moves the next session to index `i`
      if t.isIdle nowMs p then expireLoop nowMs fuel i (removed + 1) (t.eraseSession p)
      else expireLoop nowMs fuel (i + 1) removed t

/-- `expire`. -/
def expire (t : SessionTable) (nowMs : UInt64) : Nat × SessionTable :=
  expireLoop nowMs t.sessions.length 0 0 t

/-! ## Calls on a table -/

/-- A call of the public interface. -/
inductive Call
  | lookupForward (key : FlowKey)
  | lookupReverse (key : FlowKey)
  | touch (s : Option SessionPtr) (nowMs : UInt64)
  | expire (nowMs : UInt64)
  | create (key : FlowKey) (upstreamIp : UInt32) (upstreamPort : UInt16) (nowMs : UInt64)

/-- The table after a call. -/
def Call.apply (t : SessionTable) : Call → SessionTable
  | .lookupForward _ => t
  | .lookupReverse _ => t
  | .touch s nowMs => t.touch s nowMs
  | .expire nowMs => (t.expire nowMs).2
  | .create key ip port nowMs => (t.create key ip port nowMs).2

/-- What the callers observe: a session is created only for a key that has none, and a pointer that
is touched is null or belongs to a live session. -/
def Call.Allowed (t : SessionTable) : Call → Prop
  | .create key _ _ _ => t.lookupForward key = none
  | .touch (some p) _ => p ∈ t.sessions
  | _ => True

/-- The tables that sequences of allowed calls reach from `t`. -/
inductive Reaches (t : SessionTable) : SessionTable → Prop
  | refl : Reaches t t
  | call {u : SessionTable} (c : Call) : Reaches t u → c.Allowed u → Reaches t (c.apply u)

end SessionTable

end VioletGateway
