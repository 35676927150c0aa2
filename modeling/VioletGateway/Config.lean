import VioletGateway.Mbuf

/-!
# Constants of the gateway

The constants of `config.hpp` and `dpdk/config.hpp` that the datapath reads, and the values it takes
from the header files of DPDK and of the C library.
-/

set_option autoImplicit false

namespace VioletGateway

namespace Config

/-- An IPv4 address in network byte order from its octets, `VioletGW::ipv4_from`. -/
def ipv4From (o : Fin 4 → UInt8) : UInt32 := Support.ofLe32 o

def vipIpOctets : Fin 4 → UInt8 := ![192, 168, 1, 100]
def vipPort : UInt16 := 53
def gatewayIpOctets : Fin 4 → UInt8 := ![192, 168, 1, 10]
def gatewayMac : EtherAddr := ![0x02, 0x00, 0x00, 0x00, 0x00, 0x01]
def upstreamNhMac : EtherAddr := ![0x02, 0x00, 0x00, 0x00, 0x00, 0x03]
def clientNhMac : EtherAddr := ![0x02, 0x00, 0x00, 0x00, 0x00, 0x03]
def upstream0IpOctets : Fin 4 → UInt8 := ![10, 0, 0, 1]
def upstream0Port : UInt16 := 53
def sessionIdleTimeoutMs : UInt64 := 60000
def sessionExpireIntervalMs : UInt64 := 1000
def cpPollIntervalMs : UInt64 := 1000
def arpEntryTimeoutMs : UInt64 := 300000
def arpExpireIntervalMs : UInt64 := 60000
def arpProbeIntervalMs : UInt64 := 1000
def arpPendingTimeoutMs : UInt64 := 5000
def arpPendingMaxPerIp : Nat := 64

/-- `IO_RX_BURST`, the size of the arrays of the worker loop. -/
def ioRxBurst : Nat := 32

/-- `IO_TX_BURST`, the size of the array in `nic_send`. -/
def ioTxBurst : Nat := 32

end Config

def etherTypeIpv4 : UInt16 := 0x0800
def etherTypeArp : UInt16 := 0x0806
def arpHrdEther : UInt16 := 1
def arpOpRequest : UInt16 := 1
def arpOpReply : UInt16 := 2
def ipprotoUdp : UInt8 := 17
def ipv4HdrMfFlag : UInt16 := 0x2000
def ipv4HdrOffsetMask : UInt16 := 0x1fff

end VioletGateway
