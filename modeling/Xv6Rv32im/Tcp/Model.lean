import Xv6Rv32im.Tcp.Utils

/-!
# The TCP control blocks

`tcp.c` as a transition system.  Every call runs under the one TCP lock, so a
call is one step; a call that sleeps is split where it gives the lock up.  The
segments handed to `ip_tx` are recorded in the order they are sent.  A copy that
would leave `cb->buf` is a fault: what it overwrites is not modelled.
-/

namespace Xv6Rv32im.Tcp

def TCP_CB_TABLE_SIZE : Nat := 16

def BUF_SIZE : Nat := 8192

def TCP_HDR_SIZE : Nat := 20

def USABLE_PORT_MIN : Nat := 49152
def USABLE_PORT_MAX : Nat := 65535

/-- The connection states, in the order of their numbers. -/
inductive TcpState where
  | closed
  | listen
  | synSent
  | synRcvd
  | established
  | finWait1
  | finWait2
  | closing
  | timeWait
  | closeWait
  | lastAck
  deriving DecidableEq

def TCP_FLG_FIN : BitVec 8 := 0x01
def TCP_FLG_SYN : BitVec 8 := 0x02
def TCP_FLG_RST : BitVec 8 := 0x04
def TCP_FLG_PSH : BitVec 8 := 0x08
def TCP_FLG_ACK : BitVec 8 := 0x10

def flgIs (x y : BitVec 8) : Bool := x &&& 0x3f == y

def flgIsSet (x y : BitVec 8) : Bool := x &&& 0x3f &&& y != 0

/-- `struct tcp_hdr`, its fields as they lie in memory. -/
structure TcpHdr where
  srcPort : BitVec 16
  dstPort : BitVec 16
  seq : BitVec 32
  ack : BitVec 32
  off : BitVec 8
  flg : BitVec 8

abbrev Memory := Nat → BitVec 8

def load16 (p : Memory) (at_ : Nat) : BitVec 16 := p (at_ + 1) ++ p at_

def load32 (p : Memory) (at_ : Nat) : BitVec 32 :=
  p (at_ + 3) ++ p (at_ + 2) ++ p (at_ + 1) ++ p at_

def loadTcpHdr (p : Memory) : TcpHdr where
  srcPort := load16 p 0
  dstPort := load16 p 2
  seq := load32 p 4
  ack := load32 p 8
  off := p 12
  flg := p 13

/-- A segment handed to `ip_tx`: the control block it left, its header fields in
host order and the length of its payload. -/
structure Sent where
  soc : Nat
  seq : BitVec 32
  ack : BitVec 32
  flg : BitVec 8
  win : BitVec 16
  len : BitVec 32

structure TcpCb where
  used : Bool
  state : TcpState
  port : BitVec 16
  peerAddr : BitVec 32
  peerPort : BitVec 16
  sndNxt : BitVec 32
  sndUna : BitVec 32
  iss : BitVec 32
  rcvNxt : BitVec 32
  rcvWnd : BitVec 16
  irs : BitVec 32
  txq : List Sent
  buf : Memory
  parent : Option Nat
  backlog : List Nat

/-- A control block after `memset(cb, 0, sizeof(*cb))`. -/
def TcpCb.zero : TcpCb :=
  ⟨false, .closed, 0, 0, 0, 0, 0, 0, 0, 0, 0, [], fun _ => 0, none, []⟩

def TcpCb.txIsReady (cb : TcpCb) : Bool :=
  cb.state == .established || cb.state == .closeWait

def TcpCb.rxIsReady (cb : TcpCb) : Bool :=
  cb.state == .established || cb.state == .finWait1 || cb.state == .finWait2

/-- The state of the TCP layer.  `locked` is set when a call returned without
releasing the lock; `closers` are the calls of `tcp_close` that sleep. -/
structure TcpStack where
  cb : Nat → TcpCb
  locked : Bool
  closers : List Nat
  randNext : BitVec 32
  sent : List Sent

def TcpStack.init : TcpStack := ⟨fun _ => .zero, false, [], 1, []⟩

/-- A copy outside `cb->buf`, or a use of a null `cb->parent`. -/
inductive Fault where
  | bufOverrun
  | nullParent
  deriving DecidableEq

/-- The IP payload of an arriving TCP packet: its source address, its length and
the memory from its first byte on. -/
structure Packet where
  srcIp : BitVec 32
  len : BitVec 16
  data : Memory

/-- What a call of `tcp_read` has done: it still sleeps (or spins on the lock),
it returned an error, or it returned these bytes. -/
inductive ReadResult where
  | blocked
  | error
  | bytes (data : List (BitVec 8))

/-- A call by some process, the end of a sleep, or an arriving packet. -/
inductive Event where
  | tcpOpen (ip : BitVec 32) (port : BitVec 16)
  | tcpConnect (soc : Int) (dstIp dstPort : BitVec 32)
  | tcpSend (soc : Int) (len : BitVec 32)
  | tcpClose (soc : Int)
  | tcpCloseWake (i : Nat)
  | tcpRead (soc : Int) (size : BitVec 32) (copied : Bool)
  | tcpRx (packet : Packet)

/-- `memmove(cb->buf + (sizeof(cb->buf) - cb->rcv.wnd), payload, plen)`. -/
def TcpCb.copyIn (cb : TcpCb) (payload : Memory) (plen : BitVec 32) : Except Fault TcpCb :=
  let position := BUF_SIZE - cb.rcvWnd.toNat
  if cb.rcvWnd.toNat ≤ BUF_SIZE ∧ position + plen.toNat ≤ BUF_SIZE then
    .ok { cb with buf := fun k =>
      if position ≤ k ∧ k < position + plen.toNat then payload (k - position) else cb.buf k }
  else .error .bufOverrun

namespace TcpStack

def setCb (s : TcpStack) (i : Nat) (cb : TcpCb) : TcpStack :=
  { s with cb := Function.update s.cb i cb }

def modifyCb (s : TcpStack) (i : Nat) (f : TcpCb → TcpCb) : TcpStack := s.setCb i (f (s.cb i))

def rand (s : TcpStack) : BitVec 32 × TcpStack :=
  (doRand s.randNext, { s with randNext := doRand s.randNext })

/-! ## Transmission -/

/-- Send a segment of control block `i` and keep a copy in its queue. -/
def tcpTx (s : TcpStack) (i : Nat) (seq ack : BitVec 32) (flg : BitVec 8) (len : BitVec 32) :
    TcpStack :=
  let segment : Sent := ⟨i, seq, ack, flg, (s.cb i).rcvWnd, len⟩
  { s.modifyCb i (fun cb => { cb with txq := cb.txq ++ [segment] }) with
    sent := s.sent ++ [segment] }

def tcpTxEmpty (s : TcpStack) (i : Nat) (seq ack : BitVec 32) (flg : BitVec 8) : TcpStack :=
  s.tcpTx i seq ack flg 0

/-- Clear a control block and, before it, the blocks in its backlog. -/
def tcpCbClear : Nat → TcpStack → Nat → TcpStack
  | 0, s, _ => s
  | fuel + 1, s, i =>
    let backlog := (s.cb i).backlog
    let s := s.modifyCb i (fun cb => { cb with txq := [], backlog := [] })
    let s := backlog.foldl (tcpCbClear fuel) s
    s.setCb i .zero

/-! ## Arriving segments -/

/-- The part of `tcp_incoming_event` for a block without a connection. -/
def eventClosed (s : TcpStack) (i : Nat) (hdr : TcpHdr) (plen : BitVec 32) : TcpStack :=
  if flgIsSet hdr.flg TCP_FLG_RST then s
  else if flgIsSet hdr.flg TCP_FLG_ACK then
    s.tcpTxEmpty i (toggleEndian32 hdr.ack) 0 TCP_FLG_RST
  else
    let ack := toggleEndian32 hdr.seq
    let ack := if flgIsSet hdr.flg TCP_FLG_SYN then ack + 1 else ack
    let ack := if plen ≠ 0 then ack + plen else ack
    let ack := if flgIsSet hdr.flg TCP_FLG_FIN then ack + 1 else ack
    s.tcpTxEmpty i 0 ack TCP_FLG_RST

def eventListen (s : TcpStack) (i : Nat) (hdr : TcpHdr) : TcpStack :=
  if flgIsSet hdr.flg TCP_FLG_RST then s
  else if flgIsSet hdr.flg TCP_FLG_ACK then
    s.tcpTxEmpty i (toggleEndian32 hdr.ack) 0 TCP_FLG_RST
  else if flgIsSet hdr.flg TCP_FLG_SYN then
    let s := s.modifyCb i fun cb =>
      { cb with rcvNxt := toggleEndian32 hdr.seq + 1, irs := toggleEndian32 hdr.seq }
    let (iss, s) := s.rand
    let s := s.modifyCb i fun cb => { cb with iss := iss }
    let s := s.tcpTxEmpty i iss (s.cb i).rcvNxt (TCP_FLG_SYN ||| TCP_FLG_ACK)
    s.modifyCb i fun cb => { cb with sndNxt := cb.iss + 1, sndUna := cb.iss, state := .synRcvd }
  else s

def eventSynSent (s : TcpStack) (i : Nat) (hdr : TcpHdr) : TcpStack :=
  let cb := s.cb i
  let ack := toggleEndian32 hdr.ack
  if flgIsSet hdr.flg TCP_FLG_ACK && (ack ≤ cb.iss || ack > cb.sndNxt) then
    if flgIsSet hdr.flg TCP_FLG_RST then s
    else s.tcpTxEmpty i ack 0 TCP_FLG_RST
  else if flgIsSet hdr.flg TCP_FLG_RST then s
  else if flgIsSet hdr.flg TCP_FLG_SYN then
    let s := s.modifyCb i fun cb =>
      { cb with rcvNxt := toggleEndian32 hdr.seq + 1, irs := toggleEndian32 hdr.seq }
    if flgIsSet hdr.flg TCP_FLG_ACK then
      let s := s.modifyCb i fun cb => { cb with sndUna := ack }
      if (s.cb i).sndUna > (s.cb i).iss then
        let s := s.modifyCb i fun cb => { cb with state := .established }
        s.tcpTxEmpty i (s.cb i).sndNxt (s.cb i).rcvNxt TCP_FLG_ACK
      else s
    else s.tcpTxEmpty i (s.cb i).iss (s.cb i).rcvNxt TCP_FLG_ACK
  else s

/-- The state changes an acceptable acknowledgement brings, and whether the rest
of the segment is processed. -/
def ackStates (s : TcpStack) (i : Nat) (ack : BitVec 32) : TcpStack × Bool :=
  let cb := s.cb i
  if cb.state = .finWait1 then
    if ack = cb.sndNxt then (s.modifyCb i fun cb => { cb with state := .finWait2 }, true)
    else (s, true)
  else if cb.state = .closing then
    if ack = cb.sndNxt then (s.modifyCb i fun cb => { cb with state := .timeWait }, false)
    else (s, false)
  else (s, true)

/-- The acknowledgement case shared by the synchronized states. -/
def ackSynchronized (s : TcpStack) (i : Nat) (ack : BitVec 32) : TcpStack × Bool :=
  let cb := s.cb i
  if cb.sndUna < ack ∧ ack ≤ cb.sndNxt then
    ackStates (s.modifyCb i fun cb => { cb with sndUna := ack }) i ack
  else if ack > cb.sndNxt then (s.tcpTxEmpty i cb.sndNxt cb.rcvNxt TCP_FLG_ACK, false)
  else ackStates s i ack

def pushBacklog (s : TcpStack) (i : Nat) : Except Fault TcpStack :=
  match (s.cb i).parent with
  | none => .error .nullParent
  | some parent => .ok (s.modifyCb parent fun cb => { cb with backlog := cb.backlog ++ [i] })

/-- The second switch of `tcp_incoming_event`, on the acknowledgement. -/
def eventAck (s : TcpStack) (i : Nat) (ack : BitVec 32) : Except Fault (TcpStack × Bool) :=
  let cb := s.cb i
  match cb.state with
  | .synRcvd =>
    if cb.sndUna ≤ ack ∧ ack ≤ cb.sndNxt then do
      let s ← (s.modifyCb i fun cb => { cb with state := .established }).pushBacklog i
      return s.ackSynchronized i ack
    else return (s.tcpTxEmpty i ack 0 TCP_FLG_RST, true)
  | .established | .finWait1 | .finWait2 | .closeWait | .closing =>
    return s.ackSynchronized i ack
  | .lastAck => return (tcpCbClear TCP_CB_TABLE_SIZE s i, false)
  | _ => return (s, true)

/-- Take the payload into the buffer, in the states that accept data. -/
def eventPayload (s : TcpStack) (i : Nat) (hdr : TcpHdr) (payload : Memory) (plen : BitVec 32) :
    Except Fault TcpStack :=
  if plen ≠ 0 then
    match (s.cb i).state with
    | .established | .finWait1 | .finWait2 => do
        let cb ← (s.cb i).copyIn payload plen
        let s := s.setCb i { cb with
          rcvNxt := toggleEndian32 hdr.seq + plen
          rcvWnd := cb.rcvWnd - plen.setWidth 16 }
        return s.tcpTxEmpty i (s.cb i).sndNxt (s.cb i).rcvNxt TCP_FLG_ACK
    | _ => return s
  else return s

def finState : TcpState → TcpState
  | .synRcvd | .established => .closeWait
  | .finWait1 => .finWait2
  | .finWait2 => .timeWait
  | state => state

def eventFin (s : TcpStack) (i : Nat) (hdr : TcpHdr) : TcpStack :=
  if flgIsSet hdr.flg TCP_FLG_FIN then
    let s := s.modifyCb i fun cb => { cb with rcvNxt := cb.rcvNxt + 1 }
    let s := s.tcpTxEmpty i (s.cb i).sndNxt (s.cb i).rcvNxt TCP_FLG_ACK
    s.modifyCb i fun cb => { cb with state := finState cb.state }
  else s

/-- `tcp_incoming_event(cb, hdr, len)` for control block `i`; `p` is the memory
from `hdr` on. -/
def tcpIncomingEvent (s : TcpStack) (i : Nat) (p : Memory) (len : BitVec 32) :
    Except Fault TcpStack :=
  let hdr := loadTcpHdr p
  let hlen : BitVec 32 := (hdr.off >>> 4).setWidth 32 * 4
  let plen := len - hlen
  match (s.cb i).state with
  | .closed => return s.eventClosed i hdr plen
  | .listen => return s.eventListen i hdr
  | .synSent => return s.eventSynSent i hdr
  | _ =>
    if toggleEndian32 hdr.seq ≠ (s.cb i).rcvNxt then return s
    else if flgIsSet hdr.flg (TCP_FLG_RST ||| TCP_FLG_SYN) then return s
    else if !flgIsSet hdr.flg TCP_FLG_ACK then return s
    else do
      let (s, more) ← s.eventAck i (toggleEndian32 hdr.ack)
      if more then
        let s ← s.eventPayload i hdr (fun k => p (hlen.toNat + k)) plen
        return s.eventFin i hdr
      else return s

/-- The used block that the packet's addresses and ports name. -/
def findCb (s : TcpStack) (srcIp : BitVec 32) (hdr : TcpHdr) : Option Nat :=
  (List.range TCP_CB_TABLE_SIZE).find? fun i =>
    (s.cb i).used && (s.cb i).port == hdr.dstPort &&
      (s.cb i).peerAddr == srcIp && (s.cb i).peerPort == hdr.srcPort

/-- The first listening block on the packet's port. -/
def findListener (s : TcpStack) (hdr : TcpHdr) : Option Nat :=
  (List.range TCP_CB_TABLE_SIZE).find? fun i =>
    (s.cb i).used && (s.cb i).port == hdr.dstPort && (s.cb i).state == .listen

def findFree (s : TcpStack) : Option Nat :=
  (List.range TCP_CB_TABLE_SIZE).find? fun i => !(s.cb i).used

/-- The block that takes the packet: a connected one, or a free one set up for a
listener. -/
def selectCb (s : TcpStack) (packet : Packet) (hdr : TcpHdr) : Option (Nat × TcpStack) :=
  match s.findCb packet.srcIp hdr with
  | some i => some (i, s)
  | none =>
    match s.findListener hdr, s.findFree with
    | some lcb, some fcb =>
      if flgIs hdr.flg TCP_FLG_SYN then
        some (fcb, s.modifyCb fcb fun cb =>
          { cb with
            used := true
            state := (s.cb lcb).state
            port := (s.cb lcb).port
            peerAddr := packet.srcIp
            peerPort := hdr.srcPort
            rcvWnd := BitVec.ofNat 16 BUF_SIZE
            parent := some lcb })
      else none
    | _, _ => none

def tcpRx (s : TcpStack) (packet : Packet) : Except Fault TcpStack :=
  let hdr := loadTcpHdr packet.data
  if packet.len.toNat < TCP_HDR_SIZE then return s
  else if s.locked then return s
  else
    match s.selectCb packet hdr with
    | none => return s
    | some (i, s) =>
      let dataOffset := hdr.off >>> 4
      let diff : BitVec 16 := dataOffset.setWidth 16 * 4 - BitVec.ofNat 16 TCP_HDR_SIZE
      s.tcpIncomingEvent i packet.data (packet.len.setWidth 32 - diff.setWidth 32)

/-! ## Calls -/

/-- The block a socket index names, or `none` for an invalid index. -/
def socket (soc : Int) : Option Nat :=
  if soc < 0 ∨ soc ≥ TCP_CB_TABLE_SIZE then none else some soc.toNat

/-- The loop of `tcp_open` over the table. A block that already has the peer
ends the call with the lock held. -/
def openFrom (ip : BitVec 32) (port : BitVec 16) (s : TcpStack) : List Nat → Int × TcpStack
  | [] => (-1, s)
  | i :: rest =>
    if (s.cb i).used then
      if (s.cb i).peerAddr = ip ∧ (s.cb i).peerPort = port then (-1, { s with locked := true })
      else openFrom ip port s rest
    else (i, s.modifyCb i fun cb => { cb with used := true })

def tcpOpen (s : TcpStack) (ip : BitVec 32) (port : BitVec 16) : Int × TcpStack :=
  if s.locked then (-1, s)
  else openFrom ip port s (List.range TCP_CB_TABLE_SIZE)

/-- `tcp_close` up to the point where it sleeps or returns. -/
def tcpClose (s : TcpStack) (soc : Int) : TcpStack :=
  match socket soc with
  | none => s
  | some i =>
    if s.locked then s
    else if !(s.cb i).used then s
    else
      let finish (state : TcpState) : TcpStack :=
        let cb := s.cb i
        let s := s.tcpTxEmpty i cb.sndNxt cb.rcvNxt (TCP_FLG_FIN ||| TCP_FLG_ACK)
        let s := s.modifyCb i fun cb => { cb with state := state, sndNxt := cb.sndNxt + 1 }
        { s with closers := i :: s.closers }
      match (s.cb i).state with
      | .synRcvd | .established => finish .finWait1
      | .closeWait => finish .lastAck
      | _ => tcpCbClear TCP_CB_TABLE_SIZE s i

/-- `tcp_close` from the return of its `sleep` on. A sleeper may be woken by a
segment or killed, so nothing is known about the block. -/
def tcpCloseWake (s : TcpStack) (i : Nat) : TcpStack :=
  if s.locked then s
  else if i ∈ s.closers then
    tcpCbClear TCP_CB_TABLE_SIZE { s with closers := s.closers.erase i } i
  else s

/-- The first usable port that no used block has, in network order. -/
def freePort (s : TcpStack) : BitVec 16 :=
  let ports := (List.range (USABLE_PORT_MAX + 1 - USABLE_PORT_MIN)).map (· + USABLE_PORT_MIN)
  let free := ports.find? fun port => (List.range TCP_CB_TABLE_SIZE).all fun i =>
    !((s.cb i).used && (s.cb i).port == toggleEndian16 (BitVec.ofNat 16 port))
  match free with
  | some port => toggleEndian16 (BitVec.ofNat 16 port)
  | none => 0

/-- `tcp_connect` up to its `sleep`; the loop around the sleep changes nothing. -/
def tcpConnect (s : TcpStack) (soc : Int) (dstIp dstPort : BitVec 32) : TcpStack :=
  match socket soc with
  | none => s
  | some i =>
    if s.locked then s
    else if !(s.cb i).used || (s.cb i).state != .closed then s
    else
      let port := if (s.cb i).port = 0 then s.freePort else (s.cb i).port
      if port = 0 then s
      else
        let (iss, s) := s.rand
        let s := s.modifyCb i fun cb =>
          { cb with
            port := port
            peerAddr := toggleEndian32 dstIp
            peerPort := toggleEndian16 (dstPort.setWidth 16)
            rcvWnd := BitVec.ofNat 16 BUF_SIZE
            iss := iss }
        let s := s.tcpTx i (s.cb i).iss 0 TCP_FLG_SYN 0
        s.modifyCb i fun cb => { cb with sndNxt := cb.iss + 1, state := .synSent }

def tcpSend (s : TcpStack) (soc : Int) (len : BitVec 32) : TcpStack :=
  match socket soc with
  | none => s
  | some i =>
    if s.locked then s
    else if !(s.cb i).used then s
    else if !(s.cb i).txIsReady then s
    else
      let cb := s.cb i
      let s := s.tcpTx i cb.sndNxt cb.rcvNxt (TCP_FLG_ACK ||| TCP_FLG_PSH) len
      s.modifyCb i fun cb => { cb with sndNxt := cb.sndNxt + len }

/-- `tcp_read`; `copied` tells whether its `copyout` succeeds. A failed copy
returns with the lock held. -/
def tcpRead (s : TcpStack) (soc : Int) (size : BitVec 32) (copied : Bool) :
    Except Fault (ReadResult × TcpStack) :=
  match socket soc with
  | none => return (.error, s)
  | some i =>
    if s.locked then return (.blocked, s)
    else if !(s.cb i).used then return (.error, s)
    else
      let cb := s.cb i
      let total := BitVec.ofNat 32 BUF_SIZE - cb.rcvWnd.setWidth 32
      if total = 0 then
        if cb.rxIsReady then return (.blocked, s) else return (.bytes [], s)
      else if total.toNat > BUF_SIZE then .error .bufOverrun
      else
        let len := if size < total then size else total
        if !copied then return (.error, { s with locked := true })
        else
          let data := (List.range len.toNat).map cb.buf
          let s := s.setCb i { cb with
            buf := fun k => if k < (total - len).toNat then cb.buf (k + len.toNat) else cb.buf k
            rcvWnd := cb.rcvWnd + len.setWidth 16 }
          return (.bytes data, s)

/-! ## Runs -/

def step (s : TcpStack) : Event → Except Fault TcpStack
  | .tcpOpen ip port => .ok (s.tcpOpen ip port).2
  | .tcpConnect soc dstIp dstPort => .ok (s.tcpConnect soc dstIp dstPort)
  | .tcpSend soc len => .ok (s.tcpSend soc len)
  | .tcpClose soc => .ok (s.tcpClose soc)
  | .tcpCloseWake i => .ok (s.tcpCloseWake i)
  | .tcpRead soc size copied => (s.tcpRead soc size copied).map Prod.snd
  | .tcpRx packet => s.tcpRx packet

end TcpStack

end Xv6Rv32im.Tcp
