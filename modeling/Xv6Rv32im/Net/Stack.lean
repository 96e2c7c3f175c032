import Xv6Rv32im.Net.TransmitRing
import Xv6Rv32im.Tcp.Model

/-!
# The network stack

The path of packets through `e1000.c`, `ethernet.c`, `arp.c`, `ip.c`, `udp.c`, `tcp.c` and
`socket.c`, around the TCP control blocks.  Pages that become mbufs are numbered in the
order in which `kalloc` hands them out; which of these calls fail is given with the event.
A panic, or a use of a null or foreign pointer, sets `fault`.
-/

namespace Xv6Rv32im.Net

open Tcp List

open Tcp (Memory load16 load32 toggleEndian16 toggleEndian32 TcpStack)
open Vm (PGSIZE)

def RX_RING_SIZE : Nat := 16
def ETH_HDR_SIZE : Nat := 14
def ARP_HDR_SIZE : Nat := 28
def IP_HDR_SIZE : Nat := 20
def UDP_HDR_SIZE : Nat := 8

def ETH_TYPE_IPV4 : BitVec 16 := 0x800
def ETH_TYPE_ARP : BitVec 16 := 0x806
def IP_PROTO_UDP : BitVec 8 := 17
def IP_PROTO_TCP : BitVec 8 := 6

def ETHERNET_ADDR_ANY : List (BitVec 8) := [0, 0, 0, 0, 0, 0]
def ETHERNET_ADDR_BROADCAST : List (BitVec 8) := [0xff, 0xff, 0xff, 0xff, 0xff, 0xff]
def LOCAL_IP_ADDR : BitVec 32 := 0x0a00020f
def LOCAL_MAC_ADDR : List (BitVec 8) := [0x52, 0x54, 0x0, 0x12, 0x34, 0x56]
def GATEWAY_MAC_ADDR : List (BitVec 8) := [0x52, 0x55, 0xa, 0x0, 0x2, 0x2]

def ARP_OR_REQUEST : BitVec 16 := 1
def ARP_OR_REPLY : BitVec 16 := 2
def ARP_TABLE_SIZE : Nat := 2048
def ETH_HTYPE : BitVec 16 := 1
def IPV4_PTYPE : BitVec 16 := 0x800
def ETH_HLEN : BitVec 8 := 6
def IPV4_PLEN : BitVec 8 := 4

def UDP_CB_TABLE_SIZE : Nat := 16

def SOCKET_TYPE_TCP : BitVec 8 := 0
def SOCKET_TYPE_UDP : BitVec 8 := 1

/-! ## Bytes in memory -/

def bytes16 (v : BitVec 16) : List (BitVec 8) :=
  [v.setWidth 8, (v >>> 8).setWidth 8]

def bytes32 (v : BitVec 32) : List (BitVec 8) :=
  [v.setWidth 8, (v >>> 8).setWidth 8, (v >>> 16).setWidth 8, (v >>> 24).setWidth 8]

def storeBytes (mem : Memory) (addr : Nat) (bytes : List (BitVec 8)) : Memory := fun a =>
  if addr ≤ a ∧ a < addr + bytes.length then bytes.getD (a - addr) 0 else mem a

/-- The loop of `checksum` that adds the carries.  Two rounds clear them. -/
def addCarries : Nat → BitVec 32 → BitVec 32
  | 0, sum => sum
  | rounds + 1, sum =>
    if sum >>> 16 = 0 then sum else addCarries rounds ((sum >>> 16) + (sum &&& 0xffff))

def checksum (mem : Memory) (addr : Nat) (len init : BitVec 32) : BitVec 16 :=
  let nleft := len.toNat % 2 ^ 16
  let sum := (range (nleft / 2)).foldl
    (fun sum i => sum + (load16 mem (addr + 2 * i)).setWidth 32) init
  let sum := if nleft % 2 = 1 then sum + (mem (addr + nleft - 1)).setWidth 32 else sum
  ~~~((addCarries 2 sum).setWidth 16)

/-! ## The state -/

structure ArpEntry where
  used : Bool
  ipAddr : BitVec 32
  macAddr : List (BitVec 8)

/-- `struct udp_cb`; `mbufs` is the queue. -/
structure UdpCb where
  used : Bool
  port : BitVec 16
  peerAddr : BitVec 32
  peerPort : BitVec 16
  mbufs : List Mbuf

def UdpCb.zero : UdpCb := ⟨false, 0, 0, 0, []⟩

inductive NetFault where
  | e1000
  | ethernetRx
  | mbufAppend
  | mbufPrepend
  | socketRead
  | nullMbuf
  | udpIndex
  | tcp (fault : Fault)
  deriving DecidableEq

/-- The state of the network stack.  `udpLocked` is set when `udp_open` returned without
releasing its lock, `next` is the number of the next page for an mbuf, `denials` tells which
of the next allocations fail, and `seen` are the stretches of received frames that were read
or handed to the next layer. -/
structure NetStack where
  nic : Nic
  rxMbufs : Nat → Mbuf
  rdt : Nat
  tcp : TcpStack
  udp : Nat → UdpCb
  udpLocked : Bool
  arp : Nat → ArpEntry
  next : Nat
  denials : List Bool
  seen : List (Nat × Nat)
  fault : Option NetFault

namespace NetStack

/-- After `e1000_init`: the receive ring is full of mbufs. -/
def init : NetStack where
  nic := Nic.e1000TxInit fun _ => 0
  rxMbufs := fun i => Mbuf.alloc i 0
  rdt := RX_RING_SIZE - 1
  tcp := TcpStack.init
  udp := fun _ => .zero
  udpLocked := false
  arp := fun _ => ⟨false, 0, ETHERNET_ADDR_ANY⟩
  next := RX_RING_SIZE
  denials := []
  seen := []
  fault := none

def mem (k : NetStack) : Memory := k.nic.mem

def panic (k : NetStack) (fault : NetFault) : NetStack :=
  { k with fault := some fault }

def store (k : NetStack) (addr : Nat) (bytes : List (BitVec 8)) : NetStack :=
  { k with nic := { k.nic with mem := storeBytes k.nic.mem addr bytes } }

def see (k : NetStack) (addr size : Nat) : NetStack :=
  { k with seen := k.seen ++ [(addr, size)] }

def mbufFree (k : NetStack) (m : Mbuf) : NetStack :=
  { k with nic := k.nic.mbufFree m }

def mbufAlloc (k : NetStack) (headroom : BitVec 32) : Option Mbuf × NetStack :=
  if headroom.toNat > MBUF_SIZE then (none, k)
  else if k.denials.headD false then (none, { k with denials := k.denials.tail })
  else
    let m := Mbuf.alloc k.next headroom
    (some m, { k.store m.buf (replicate MBUF_SIZE 0) with
      denials := k.denials.tail
      next := k.next + 1 })

/-! ## Transmission -/

def ethernetTx (k : NetStack) (m : Mbuf) (type : BitVec 16) (dstMac : List (BitVec 8)) :
    NetStack :=
  match m.prepend (BitVec.ofNat 32 ETH_HDR_SIZE) with
  | none => k.panic .mbufPrepend
  | some (hdr, m) =>
    let k := k.store hdr (dstMac ++ LOCAL_MAC_ADDR ++ bytes16 (toggleEndian16 type))
    let (result, nic) := k.nic.e1000Send m
    let k := { k with nic := nic }
    if result < 0 then k.mbufFree m else k

/-- `arp_tx`; it sends nothing if there is no memory. -/
def arpTx (k : NetStack) (op : BitVec 16) (hwAddr dstMac : List (BitVec 8)) (dstIp : BitVec 32) :
    NetStack :=
  match k.mbufAlloc MBUF_DEFAULT_HEADROOM with
  | (none, k) => k
  | (some m, k) =>
    match m.append (BitVec.ofNat 32 ARP_HDR_SIZE) with
    | none => k.panic .mbufAppend
    | some (hdr, m) =>
      let k := k.store hdr (bytes16 (toggleEndian16 ETH_HTYPE) ++
        bytes16 (toggleEndian16 IPV4_PTYPE) ++ [ETH_HLEN, IPV4_PLEN] ++
        bytes16 (toggleEndian16 op) ++ LOCAL_MAC_ADDR ++
        bytes32 (toggleEndian32 LOCAL_IP_ADDR) ++ hwAddr ++ bytes32 (toggleEndian32 dstIp))
      k.ethernetTx m ETH_TYPE_ARP dstMac

def arpTableSelect (k : NetStack) (ipAddr : BitVec 32) : Option Nat :=
  (range ARP_TABLE_SIZE).find? fun i => (k.arp i).used && (k.arp i).ipAddr == ipAddr

def arpTableGetUnused (k : NetStack) : Option Nat :=
  (range ARP_TABLE_SIZE).find? fun i => !(k.arp i).used

/-- `arp_resolve`: its result and, if that is 1, the address. -/
def arpResolve (k : NetStack) (ipAddr : BitVec 32) : BitVec 32 × List (BitVec 8) × NetStack :=
  match k.arpTableSelect ipAddr with
  | some i =>
    if (k.arp i).macAddr = ETHERNET_ADDR_ANY then
      (0, [], k.arpTx ARP_OR_REQUEST ETHERNET_ADDR_ANY ETHERNET_ADDR_BROADCAST ipAddr)
    else (1, (k.arp i).macAddr, k)
  | none =>
    match k.arpTableGetUnused with
    | none => (-1, [], k)
    | some _ => (0, [], k.arpTx ARP_OR_REQUEST GATEWAY_MAC_ADDR ETHERNET_ADDR_BROADCAST ipAddr)

/-- The header of `ip_tx` before its checksum is filled in. -/
def ipHdr (len : BitVec 32) (dstIp : BitVec 32) (protocol : BitVec 8) : List (BitVec 8) :=
  [0x45, 0] ++ bytes16 (toggleEndian16 (len.setWidth 16)) ++ [0, 0, 0, 0, 100, protocol, 0, 0] ++
    bytes32 (toggleEndian32 LOCAL_IP_ADDR) ++ bytes32 (toggleEndian32 dstIp)

/-- The end of `ip_tx`, which finds out the destination's MAC address. -/
def ipOutput (k : NetStack) (m : Mbuf) (dstIp : BitVec 32) : NetStack :=
  if dstIp ≠ 0 then
    let (ret, mac, k) := k.arpResolve dstIp
    k.ethernetTx m ETH_TYPE_IPV4 (if ret ≠ 1 then GATEWAY_MAC_ADDR else mac)
  else k.ethernetTx m ETH_TYPE_IPV4 ETHERNET_ADDR_BROADCAST

def ipTx (k : NetStack) (m : Mbuf) (dstIp : BitVec 32) (protocol : BitVec 8) : NetStack :=
  match m.prepend (BitVec.ofNat 32 IP_HDR_SIZE) with
  | none => k.panic .mbufPrepend
  | some (hdr, m) =>
    let k := k.store hdr (ipHdr m.len dstIp protocol)
    let k := k.store (hdr + 10) (bytes16 (checksum k.mem hdr (BitVec.ofNat 32 IP_HDR_SIZE) 0))
    k.ipOutput m dstIp

def udpTx (k : NetStack) (m : Mbuf) (cb : UdpCb) : NetStack :=
  match m.prepend (BitVec.ofNat 32 UDP_HDR_SIZE) with
  | none => k.panic .mbufPrepend
  | some (hdr, m) =>
    let k := k.store hdr (bytes16 cb.port ++ bytes16 cb.peerPort ++
      bytes16 (toggleEndian16 (m.len.setWidth 16)) ++ bytes16 0)
    k.ipTx m (toggleEndian32 cb.peerAddr) IP_PROTO_UDP

/-- The header of `tcp_tx` before its checksum is filled in. -/
def tcpHdr (cb : TcpCb) (segment : Sent) : List (BitVec 8) :=
  bytes16 cb.port ++ bytes16 cb.peerPort ++ bytes32 (toggleEndian32 segment.seq) ++
    bytes32 (toggleEndian32 segment.ack) ++ [0x50, segment.flg] ++
    bytes16 (toggleEndian16 segment.win) ++ bytes16 0 ++ bytes16 0

def pseudo (remoteIp len : BitVec 32) : BitVec 32 :=
  let localIp := toggleEndian32 LOCAL_IP_ADDR
  ((localIp >>> 16) &&& 0xffff) + (localIp &&& 0xffff) + ((remoteIp >>> 16) &&& 0xffff) +
    (remoteIp &&& 0xffff) + (toggleEndian16 (IP_PROTO_TCP.setWidth 16)).setWidth 32 +
    (toggleEndian16 ((BitVec.ofNat 32 TCP_HDR_SIZE + len).setWidth 16)).setWidth 32

/-- Send a segment that the control blocks have decided to send. -/
def tcpTx (k : NetStack) (m : Mbuf) (segment : Sent) : NetStack :=
  match m.prepend (BitVec.ofNat 32 TCP_HDR_SIZE) with
  | none => k.panic .mbufPrepend
  | some (hdr, m) =>
    let cb := k.tcp.cb segment.soc
    let k := k.store hdr (tcpHdr cb segment)
    let sum := checksum k.mem hdr (BitVec.ofNat 32 TCP_HDR_SIZE + segment.len)
      (pseudo cb.peerAddr segment.len)
    let k := k.store (hdr + 16) (bytes16 sum)
    k.ipTx m (toggleEndian32 cb.peerAddr) IP_PROTO_TCP

/-- `tcp_tx_empty` does not check what `mbuf_alloc` returns. -/
def tcpTxEmpty (k : NetStack) (segment : Sent) : NetStack :=
  match k.mbufAlloc (BitVec.ofNat 32 (ETH_HDR_SIZE + IP_HDR_SIZE + TCP_HDR_SIZE)) with
  | (none, k) => k.panic .nullMbuf
  | (some m, k) => k.tcpTx m segment

/-- A step of the control blocks, and the empty segments that they send in it. -/
def tcpStep (k : NetStack) (tcp : TcpStack) : NetStack :=
  (tcp.sent.drop k.tcp.sent.length).foldl tcpTxEmpty { k with tcp := tcp }

/-! ## Reception -/

/-- The payload that `tcp_incoming_event` copies: its place after the header and length. -/
def payload (tcp : TcpStack) (i : Nat) (p : Memory) (len : BitVec 32) : List (Nat × Nat) :=
  let hdr := loadTcpHdr p
  let hlen : BitVec 32 := (hdr.off >>> 4).setWidth 32 * 4
  let plen := len - hlen
  match (tcp.cb i).state with
  | .closed | .listen | .synSent => []
  | _ =>
    if toggleEndian32 hdr.seq ≠ (tcp.cb i).rcvNxt then []
    else if flgIsSet hdr.flg (TCP_FLG_RST ||| TCP_FLG_SYN) then []
    else if !flgIsSet hdr.flg TCP_FLG_ACK then []
    else
      match tcp.eventAck i (toggleEndian32 hdr.ack) with
      | .error _ => []
      | .ok (tcp, more) =>
        if more && (plen != 0) && (tcp.cb i).rxIsReady then [(hlen.toNat, plen.toNat)] else []

/-- What `tcp_rx` hands to `tcp_incoming_event`, and the payload copied there. -/
def segmentSeen (tcp : TcpStack) (packet : Packet) : List (Nat × Nat) :=
  let hdr := loadTcpHdr packet.data
  if tcp.locked then []
  else
    match tcp.selectCb packet hdr with
    | none => []
    | some (i, tcp) =>
      let diff : BitVec 16 :=
        (hdr.off >>> 4).setWidth 16 * 4 - BitVec.ofNat 16 TCP_HDR_SIZE
      let len := packet.len.setWidth 32 - diff.setWidth 32
      (0, len.toNat) :: payload tcp i packet.data len

/-- `tcp_rx`, which neither frees nor keeps the mbuf. -/
def tcpRx (k : NetStack) (m : Mbuf) (len : BitVec 16) (iphdr : Nat) : NetStack :=
  let hdr := (m.pop (BitVec.ofNat 32 TCP_HDR_SIZE)).1.getD 0
  if len.toNat < TCP_HDR_SIZE then k
  else
    let packet : Packet := ⟨load32 k.mem (iphdr + 12), len, fun i => k.mem (hdr + i)⟩
    let k := (k.see iphdr IP_HDR_SIZE).see hdr TCP_HDR_SIZE
    let k := (segmentSeen k.tcp packet).foldl (fun k part => k.see (hdr + part.1) part.2) k
    match k.tcp.tcpRx packet with
    | .error fault => k.panic (.tcp fault)
    | .ok tcp => k.tcpStep tcp

def findUdpCb (k : NetStack) (srcIp : BitVec 32) (srcPort dstPort : BitVec 16) : Option Nat :=
  (range UDP_CB_TABLE_SIZE).find? fun i =>
    (k.udp i).used && (k.udp i).peerAddr == srcIp && (k.udp i).peerPort == srcPort &&
      (k.udp i).port == dstPort

def setUdp (k : NetStack) (i : Nat) (cb : UdpCb) : NetStack :=
  { k with udp := Function.update k.udp i cb }

/-- `udp_rx`; a datagram that is too short is not freed. -/
def udpRx (k : NetStack) (m : Mbuf) (len : BitVec 16) (iphdr : Nat) : NetStack :=
  if len.toNat < UDP_HDR_SIZE then k
  else
    let (udphdr, m) := m.pop (BitVec.ofNat 32 UDP_HDR_SIZE)
    let udphdr := udphdr.getD 0
    let k := (k.see iphdr IP_HDR_SIZE).see udphdr UDP_HDR_SIZE
    match k.findUdpCb (load32 k.mem (iphdr + 12)) (load16 k.mem udphdr)
        (load16 k.mem (udphdr + 2)) with
    | none => k.mbufFree m
    | some i =>
      (k.see m.head m.len.toNat).setUdp i { k.udp i with mbufs := (k.udp i).mbufs ++ [m] }

/-- `ip_rx`; a packet of another protocol is not freed. -/
def ipRx (k : NetStack) (m : Mbuf) : NetStack :=
  let (hdr, m) := m.pop (BitVec.ofNat 32 IP_HDR_SIZE)
  let hdr := hdr.getD 0
  let k := k.see hdr IP_HDR_SIZE
  let len := toggleEndian16 (load16 k.mem (hdr + 2)) - BitVec.ofNat 16 IP_HDR_SIZE
  let m := (m.trim (m.len - len.setWidth 32)).2
  let protocol := k.mem (hdr + 9)
  if protocol = IP_PROTO_TCP then (k.see m.head len.toNat).tcpRx m len hdr
  else if protocol = IP_PROTO_UDP then (k.see m.head len.toNat).udpRx m len hdr
  else k

/-- `arp_rx`, which neither frees nor keeps the mbuf. -/
def arpRx (k : NetStack) (m : Mbuf) : NetStack :=
  let hdr := (m.pop (BitVec.ofNat 32 ARP_HDR_SIZE)).1.getD 0
  let k := k.see hdr ARP_HDR_SIZE
  let senderMac := frame k.mem (hdr + 8) 6
  let senderIp := toggleEndian32 (load32 k.mem (hdr + 14))
  let op := toggleEndian16 (load16 k.mem (hdr + 6))
  if op = ARP_OR_REQUEST then k.arpTx ARP_OR_REPLY senderMac senderMac senderIp
  else if op = ARP_OR_REPLY then
    match k.arpTableGetUnused with
    | none => k
    | some i => { k with arp := Function.update k.arp i ⟨true, senderIp, senderMac⟩ }
  else k

def ethernetRx (k : NetStack) (m : Mbuf) : NetStack :=
  match m.pop (BitVec.ofNat 32 ETH_HDR_SIZE) with
  | (none, m) => (k.mbufFree m).panic .ethernetRx
  | (some hdr, m) =>
    let k := k.see hdr ETH_HDR_SIZE
    let type := toggleEndian16 (load16 k.mem (hdr + 12))
    if type = ETH_TYPE_IPV4 then k.ipRx m
    else if type = ETH_TYPE_ARP then k.arpRx m
    else k.mbufFree m

/-- The device writes a frame to the next mbuf of the receive ring, and an iteration of
`e1000_recv` replaces that mbuf by a new one. -/
def e1000Take (k : NetStack) (data : Memory) (length : BitVec 16) : Option Mbuf × NetStack :=
  let descPos := (k.rdt + 1) % RX_RING_SIZE
  let m := k.rxMbufs descPos
  let k := k.store m.head (frame data 0 length.toNat)
  match m.append (length.setWidth 32) with
  | none => (none, k.panic .mbufAppend)
  | some (_, m) =>
    match k.mbufAlloc 0 with
    | (none, k) => (none, k.panic .e1000)
    | (some fresh, k) =>
      (some m, { k with rxMbufs := Function.update k.rxMbufs descPos fresh, rdt := descPos })

/-- An iteration of `e1000_recv`. -/
def e1000Recv (k : NetStack) (data : Memory) (length : BitVec 16) : NetStack :=
  match k.e1000Take data length with
  | (none, k) => k
  | (some m, k) => k.ethernetRx m

/-! ## Sockets -/

/-- The block that a socket names, unless the index is invalid. -/
def udpSocket (soc : Nat) : Option Nat :=
  if soc ≥ UDP_CB_TABLE_SIZE then none else some soc

/-- The loop of `udp_open` over the table.  A block that already has the peer ends the call
with the lock held. -/
def udpOpenFrom (ip : BitVec 32) (port : BitVec 16) (k : NetStack) : List Nat → Int × NetStack
  | [] => (-1, k)
  | i :: rest =>
    if (k.udp i).used then
      if (k.udp i).peerAddr = ip ∧ (k.udp i).peerPort = port then
        (-1, { k with udpLocked := true })
      else udpOpenFrom ip port k rest
    else (i, k.setUdp i { k.udp i with used := true })

def udpOpen (k : NetStack) (ip : BitVec 32) (port : BitVec 16) : Int × NetStack :=
  if k.udpLocked then (-1, k) else udpOpenFrom ip port k (range UDP_CB_TABLE_SIZE)

def udpFreePort (k : NetStack) : BitVec 16 :=
  let ports := (range (USABLE_PORT_MAX + 1 - USABLE_PORT_MIN)).map
    (· + USABLE_PORT_MIN)
  let free := ports.find? fun port => (range UDP_CB_TABLE_SIZE).all fun i =>
    !((k.udp i).used && (k.udp i).port == toggleEndian16 (BitVec.ofNat 16 port))
  match free with
  | some port => toggleEndian16 (BitVec.ofNat 16 port)
  | none => 0

/-- `udp_connect`, which has no use for the mbuf it is given. -/
def udpConnect (k : NetStack) (soc : Nat) (dstIp : BitVec 32) (dstPort : BitVec 16) : NetStack :=
  match udpSocket soc with
  | none => k
  | some i =>
    if k.udpLocked then k
    else if !(k.udp i).used then k
    else
      let k := k.setUdp i { k.udp i with
        peerAddr := toggleEndian32 dstIp
        peerPort := toggleEndian16 dstPort }
      if (k.udp i).port = 0 then k.setUdp i { k.udp i with port := k.udpFreePort } else k

/-- `udp_close`; the queue is forgotten. -/
def udpClose (k : NetStack) (soc : Nat) : NetStack :=
  match udpSocket soc with
  | none => k
  | some i =>
    if k.udpLocked then k
    else if !(k.udp i).used then k
    else k.setUdp i .zero

/-- `udp_send`; when it fails it leaves the mbuf to nobody. -/
def udpSend (k : NetStack) (m : Mbuf) (soc : Nat) : NetStack :=
  match udpSocket soc with
  | none => k
  | some i =>
    if k.udpLocked then k
    else if !(k.udp i).used then k
    else k.udpTx m (k.udp i)

/-- `udp_read`, which does not check the index; it sleeps while the queue is empty. -/
def udpRead (k : NetStack) (soc : Nat) : NetStack :=
  if soc ≥ UDP_CB_TABLE_SIZE then k.panic .udpIndex
  else
    match (k.udp soc).mbufs with
    | [] => k
    | m :: rest => (k.setUdp soc { k.udp soc with mbufs := rest }).mbufFree m

/-- A call that sends with the mbuf of its caller, if it sends at all. -/
def tcpSendWith (k : NetStack) (m : Option Mbuf) (tcp : TcpStack) : NetStack :=
  match tcp.sent.drop k.tcp.sent.length, m with
  | [], _ => { k with tcp := tcp }
  | _ :: _, none => k.panic .nullMbuf
  | segment :: _, some m => ({ k with tcp := tcp }).tcpTx m segment

def cbIdx (result : Int) : Nat := (result % 256).toNat

/-- The part of `socket_alloc` that opens and connects. -/
def socketAlloc (k : NetStack) (ip : BitVec 32) (port : BitVec 16) (type : BitVec 8) : NetStack :=
  let headroom := BitVec.ofNat 32 (ETH_HDR_SIZE + IP_HDR_SIZE + TCP_HDR_SIZE)
  if type = SOCKET_TYPE_TCP then
    let (result, tcp) := k.tcp.tcpOpen ip port
    let (m, k) := ({ k with tcp := tcp } : NetStack).mbufAlloc headroom
    k.tcpSendWith m (k.tcp.tcpConnect (cbIdx result) ip (port.setWidth 32))
  else if type = SOCKET_TYPE_UDP then
    let (result, k) := k.udpOpen ip port
    let (_, k) := k.mbufAlloc headroom
    k.udpConnect (cbIdx result) ip port
  else k

/-- A case of `socket_write`; `copied` tells whether its `copyin` succeeds. -/
def writeWith (k : NetStack) (headroom : Nat) (send : NetStack → Mbuf → NetStack) (data : Memory)
    (len : BitVec 32) (copied : Bool) : NetStack :=
  match k.mbufAlloc (BitVec.ofNat 32 headroom) with
  | (none, k) => k.panic .nullMbuf
  | (some m, k) =>
    match m.append len with
    | none => k.panic .mbufAppend
    | some (_, m) =>
      if copied then send (k.store m.head (frame data 0 len.toNat)) m else k.mbufFree m

def socketWrite (k : NetStack) (type : BitVec 8) (soc : Nat) (data : Memory) (len : BitVec 32)
    (copied : Bool) : NetStack :=
  if type = SOCKET_TYPE_TCP then
    k.writeWith (ETH_HDR_SIZE + IP_HDR_SIZE + TCP_HDR_SIZE)
      (fun k m => k.tcpSendWith (some m) (k.tcp.tcpSend soc len)) data len copied
  else if type = SOCKET_TYPE_UDP then
    k.writeWith (ETH_HDR_SIZE + IP_HDR_SIZE + UDP_HDR_SIZE) (fun k m => k.udpSend m soc) data len
      copied
  else k

/-- `socket_read`; `copied` tells whether the `copyout` of `tcp_read` succeeds. -/
def socketRead (k : NetStack) (type : BitVec 8) (soc : Nat) (size : BitVec 32) (copied : Bool) :
    NetStack :=
  if type = SOCKET_TYPE_UDP then k.udpRead soc
  else if type = SOCKET_TYPE_TCP then
    match k.tcp.tcpRead soc size copied with
    | .error fault => k.panic (.tcp fault)
    | .ok (_, tcp) => { k with tcp := tcp }
  else k.panic .socketRead

/-- The part of `socket_close` that closes the control block. -/
def socketClose (k : NetStack) (type : BitVec 8) (soc : Nat) : NetStack :=
  if type = SOCKET_TYPE_TCP then k.tcpStep (k.tcp.tcpClose soc)
  else if type = SOCKET_TYPE_UDP then k.udpClose soc
  else k

end NetStack

/-- A frame arrives, the device sends one, or a process calls; a `tcp_close` that slept goes
on.  Each event comes with the outcomes of its allocations. -/
inductive NetEvent where
  | frame (data : Memory) (length : BitVec 16) (denials : List Bool)
  | device
  | connect (ip : BitVec 32) (port : BitVec 16) (type : BitVec 8) (denials : List Bool)
  | write (type : BitVec 8) (soc : Nat) (data : Memory) (len : BitVec 32) (copied : Bool)
      (denials : List Bool)
  | read (type : BitVec 8) (soc : Nat) (size : BitVec 32) (copied : Bool)
  | close (type : BitVec 8) (soc : Nat) (denials : List Bool)
  | closeWake (soc : Nat)

namespace NetStack

def perform (k : NetStack) : NetEvent → NetStack
  | .frame data length denials => ({ k with denials := denials }).e1000Recv data length
  | .device => { k with nic := k.nic.deviceStep }
  | .connect ip port type denials => ({ k with denials := denials }).socketAlloc ip port type
  | .write type soc data len copied denials =>
    ({ k with denials := denials }).socketWrite type soc data len copied
  | .read type soc size copied => k.socketRead type soc size copied
  | .close type soc denials => ({ k with denials := denials }).socketClose type soc
  | .closeWake soc => k.tcpStep (k.tcp.tcpCloseWake soc)

def step (k : NetStack) (event : NetEvent) : Except NetFault NetStack :=
  match (k.perform event).fault with
  | none => .ok (k.perform event)
  | some fault => .error fault

end NetStack

end Xv6Rv32im.Net
